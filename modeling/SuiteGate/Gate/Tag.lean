import SuiteGate.Text.Lines
/-!
# Gate tags

The tags by which gate tasks are selected (`Tag`), their texts (`Tag.text`, `Tag.ofText?`) and the
tags that run when none are asked for (`Tag.defaults`): those of the style checks, with either
all tags of sandboxed execution or all others.
-/

namespace SuiteGate.Gate

/-- A tag of gate tasks. -/
inductive Tag where
  | junit
  | unittest
  | unittestSandboxed
  | unittestMultiContext
  | unittestJython
  | taggedUnittest
  | svmUnittest
  | svmUnittestSandboxed
  | sharedLibrary
  | sharedLibrarySandboxed
  | graalvm
  | graalvmSandboxed
  | svm
  | nativeImageEmbedder
  | license
  | style
deriving DecidableEq, Repr

namespace Tag

/-- All tags. -/
def all : List Tag :=
  [junit, unittest, unittestSandboxed, unittestMultiContext, unittestJython, taggedUnittest,
   svmUnittest, svmUnittestSandboxed, sharedLibrary, sharedLibrarySandboxed, graalvm,
   graalvmSandboxed, svm, nativeImageEmbedder, license, style]

/-- The text of a tag. -/
def text : Tag → String
  | junit => "python-junit"
  | unittest => "python-unittest"
  | unittestSandboxed => "python-unittest-sandboxed"
  | unittestMultiContext => "python-unittest-multi-context"
  | unittestJython => "python-unittest-jython"
  | taggedUnittest => "python-tagged-unittest"
  | svmUnittest => "python-svm-unittest"
  | svmUnittestSandboxed => "python-svm-unittest-sandboxed"
  | sharedLibrary => "python-so"
  | sharedLibrarySandboxed => "python-so-sandboxed"
  | graalvm => "python-graalvm"
  | graalvmSandboxed => "python-graalvm-sandboxed"
  | svm => "python-svm"
  | nativeImageEmbedder => "python-native-image-embedder"
  | license => "python-license"
  | style => "style"

/-- The tag with a text. -/
def ofText? (s : String) : Option Tag :=
  all.find? fun t => t.text = s

/-- Whether the tasks of a tag need sandboxed execution. -/
def isSandboxed (t : Tag) : Bool :=
  Text.endsWith t.text "-sandboxed"

/-- The tags that run when none are asked for. -/
def defaults (sandboxed : Bool) : List Tag :=
  all.filter fun t => t = style || t.isSandboxed = sandboxed

/-- What is said of a text that is no tag. -/
def unknownMessage (s : String) : String :=
  "unknown gate tag: " ++ s

end Tag

end SuiteGate.Gate
