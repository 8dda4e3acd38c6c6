namespace ChatForms.Xml

/-- Other characters in every place where a certain one stands. -/
def replaceChar (c : Char) (replacement : String) (cs : List Char) : List Char :=
  cs.flatMap fun x => if x = c then replacement.toList else [x]

/-- Text in which no character is taken for markup. The ampersand comes first, since what takes the
places of the others begins with one. -/
def escape (s : String) : String :=
  String.ofList (s.toList
    |> replaceChar '&' "&amp;"
    |> replaceChar '<' "&lt;"
    |> replaceChar '>' "&gt;"
    |> replaceChar '"' "&quot;"
    |> replaceChar '\x27' "&apos;")

@[simp] theorem escape_empty : escape "" = "" := rfl

end ChatForms.Xml
