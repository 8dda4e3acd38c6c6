import ChatForms.Command.Directory
import ChatForms.Proofs.Build.Growth
import ChatForms.Proofs.StringMap

namespace ChatForms.Directory

end ChatForms.Directory
