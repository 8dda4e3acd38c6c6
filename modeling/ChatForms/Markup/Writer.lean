import ChatForms.Markup
import ChatForms.Xml.Escape

namespace ChatForms.Markup

def writeAttributes (attributes : List (String × String)) : String :=
  String.join (attributes.map fun a => " " ++ a.1 ++ "=\"" ++ Xml.escape a.2 ++ "\"")

mutual
/-- The source text of markup. An element without children is a single tag. -/
def write : Markup → String
  | text s => Xml.escape s
  | element tag attributes children =>
    "<" ++ tag ++ writeAttributes attributes ++
      if children.isEmpty then "/>" else ">" ++ writeAll children ++ "</" ++ tag ++ ">"
def writeAll : List Markup → String
  | [] => ""
  | m :: ms => m.write ++ writeAll ms
end

end ChatForms.Markup
