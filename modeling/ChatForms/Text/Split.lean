namespace ChatForms.Text

/-- The runs between the marks, empty ones included. -/
def splitOn (mark : Char) : List Char → List (List Char)
  | [] => [[]]
  | c :: cs =>
    let runs := splitOn mark cs
    if c = mark then [] :: runs else (c :: runs.headD []) :: runs.tail

/-- What stands before the first mark and what stands after it. -/
def cut? (mark : Char) (s : String) : Option (String × String) :=
  match s.toList.dropWhile (· ≠ mark) with
  | [] => none
  | _ :: after => some (String.ofList (s.toList.takeWhile (· ≠ mark)), String.ofList after)

end ChatForms.Text
