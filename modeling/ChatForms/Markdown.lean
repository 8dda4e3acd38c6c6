import ChatForms.Document

namespace ChatForms

namespace Markdown

def formHeader : String := "Form (log into desktop client to answer):\n---\n"

def formFooter : String := "---\n"

def fieldLine (k : Kind) (detail : String) : String :=
  "(" ++ k.displayName ++ ":" ++ detail ++ ")\n"

mutual
def summary : Tree → String
  | .node e children =>
    match e.kind with
    | .message => summaries children
    | .form => formHeader ++ summaries children ++ formFooter
    | .div => summaries children ++ "\n\n"
    | .button => fieldLine e.kind (Tree.textContents children)
    | .checkbox => fieldLine e.kind ((e.attribute? "name").getD "")
    | .personSelector => "(" ++ e.kind.displayName ++ ")\n\n"
    | .text => e.text.getD ""
def summaries : List Tree → String
  | [] => ""
  | t :: ts => summary t ++ summaries ts
end

end Markdown

/-- The summary for clients that cannot show forms. -/
def Document.markdown (d : Document) : String := Markdown.summary d.tree

end ChatForms
