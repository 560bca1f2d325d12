import Courier.Collection.Tree
import Courier.Files.Access
import Courier.Request.Document
import Courier.Settings.Basic
import Courier.Upload.Basic

/-!
# Faults

Everything that can end a conversion.  Most faults are about the input and are expected: a program
reports them and goes on or ends with an error.  The others are not expected anywhere.
-/

namespace Courier

/-- Why a conversion is refused before it begins. -/
inductive Refusal where
  | wrongInput (extension : String)
  | wrongOutput (extension : String)
  | noRequests (directory : String)
  deriving DecidableEq, Repr

/-- An extension in a message. -/
def shownExtension (extension : String) : String := if extension = "" then "(none)" else extension

def Refusal.message : Refusal → String
  | .wrongInput extension =>
    s!"Invalid input file: Expected .bru file, got {shownExtension extension}"
  | .wrongOutput extension =>
    s!"Invalid output file: Expected .json file, got {shownExtension extension}"
  | .noRequests directory => s!"No .bru request files found in {directory}"

inductive Fault where
  | request (fault : RequestFault)
  | rejected (rejection : Schema.Rejection)
  | access (fault : AccessFault)
  | upload (fault : UploadFault)
  | refused (refusal : Refusal)
  | address (fault : Url.TokenFault)
  | encoding (fault : Text.Utf8.Fault)
  | system (fault : SystemFault)
  | setting (fault : SettingFault)
  | emptyPath
  deriving DecidableEq, Repr

namespace Fault

def message : Fault → String
  | .request fault => fault.message
  | .rejected rejection => rejection.message
  | .access fault => fault.message
  | .upload fault => fault.message
  | .refused refusal => refusal.message
  | .address fault => (Url.Fault.token fault).message
  | .encoding fault => fault.message
  | .system fault => fault.message
  | .setting fault => fault.message
  | .emptyPath => "no path specified"

/-- Whether a fault is about the input. -/
def isExpected : Fault → Bool
  | .request _ | .rejected _ | .access _ | .upload _ | .refused _ => true
  | .address _ | .encoding _ | .system _ | .setting _ | .emptyPath => false

def ofFile : FileFault → Fault
  | .access fault => .access fault
  | .nullInPath => .system .nullInPath

def ofBuild : Collection.BuildFault → Fault
  | .token fault => .address fault
  | .rejected rejection => .rejected rejection

end Fault

end Courier
