import ArrowScript.Native.Collections
import ArrowScript.Native.Console
import ArrowScript.Native.Files
import ArrowScript.Native.Matching

namespace ArrowScript

/-!
# Calling natives
-/

/-- Call a function of the host. -/
def Native.runHost (fn : HostFunction) (args : List Value) : Action Value :=
  match fn.call args with
  | .ok result => Action.changeGet fun store => result.settle store
  | .error message => refuse (.host message)

def Native.call (native : Native) (args : List Value) : Action Value :=
  match native with
  | .time => runTime
  | .print => runPrint args
  | .write => runWrite args
  | .read => runRead
  | .parseNumber => runParseNumber args
  | .wait => runWait args
  | .length => runLength args
  | .fillArray => runFillArray args
  | .insert => runInsert args
  | .removeAt => runRemoveAt args
  | .range => runRange args
  | .rangeTo => runRangeTo args
  | .replace => runReplace args
  | .split => runSplit args
  | .choose => runChoose args
  | .remainder => runRemainder args
  | .text => runText args
  | .typeName => runTypeName args
  | .readFile => runReadFile args
  | .writeFile => runWriteFile args
  | .deleteFile => runDeleteFile args
  | .deleteDirectory => runDeleteDirectory args
  | .makeDirectory => runMakeDirectory args
  | .listFiles => runListFiles args
  | .matchFirst => runMatchFirst args
  | .matchAll => runMatchAll args
  | .replaceMatches => runReplaceMatches args
  | .host fn => runHost fn args

end ArrowScript
