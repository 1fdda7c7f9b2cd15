import ArrowScript.Text.Digit
import ArrowScript.Text.Quoted

namespace ArrowScript

/-!
# Arguments of the command line

Arguments are options or operands.  Long options may be shortened, short
options may be joined, and `--` ends the options.
-/

/-- The options of the command line. -/
inductive CommandOption
  | help
  | verbose
  | check
  | tokens
  | emitTree
deriving Repr, DecidableEq

namespace CommandOption

def spellings : List (String × CommandOption) :=
  [("-h", .help), ("--help", .help), ("-v", .verbose), ("--check", .check),
   ("--tokens", .tokens), ("--emit-ast", .emitTree)]

def name : CommandOption → String
  | .help => "-h/--help"
  | .verbose => "-v"
  | .check => "--check"
  | .tokens => "--tokens"
  | .emitTree => "--emit-ast"

def ofLetter? (letter : Char) : Option CommandOption :=
  spellings.lookup (String.ofList ['-', letter])

/-- Options of which only one can be given. -/
def exclusive : List CommandOption :=
  [.check, .tokens, .emitTree]

end CommandOption

/-- What is wrong with the command line. -/
inductive ArgumentFault
  | ambiguous (argument : String) (candidates : List String)
  | ignoredText (option : CommandOption) (text : String)
  | conflict (option earlier : CommandOption)
  | missingProgram
  | unrecognized (arguments : List String)
deriving Repr, DecidableEq

def ArgumentFault.message : ArgumentFault → String
  | .ambiguous arg candidates =>
      "ambiguous option: " ++ arg ++ " could match " ++ ", ".intercalate candidates
  | .ignoredText option text =>
      "argument " ++ option.name ++ ": ignored explicit argument " ++ Text.quoted text
  | .conflict option earlier =>
      "argument " ++ option.name ++ ": not allowed with argument " ++ earlier.name
  | .missingProgram => "the following arguments are required: program"
  | .unrecognized args => "unrecognized arguments: " ++ " ".intercalate args

/-- What an argument in front of `--` is. -/
inductive Argument
  | operand (text : String)
  /-- A long option, with the text behind its equals sign. -/
  | long (option : CommandOption) (text : Option String)
  /-- A short option with the text joined to it, which may start with an equals sign. -/
  | short (option : CommandOption) (equals : Bool) (text : List Char)
  | unknown (text : String)
deriving Repr, DecidableEq

namespace Argument

def splitEquals (text : List Char) : List Char × Option (List Char) :=
  match text.dropWhile (· != '=') with
  | [] => (text, none)
  | _ :: behind => (text.takeWhile (· != '='), some behind)

def isNegativeNumber (text : List Char) : Bool :=
  match text with
  | '-' :: digits =>
      let whole := digits.takeWhile Text.isDigit
      match digits.dropWhile Text.isDigit with
      | [] => !whole.isEmpty
      | '.' :: fraction => !fraction.isEmpty && fraction.all Text.isDigit
      | _ => false
  | _ => false

def ofUnknown (text : String) : Argument :=
  if isNegativeNumber text.toList || text.toList.contains ' ' then .operand text
  else .unknown text

/-- An argument that starts with two dashes: an option, maybe shortened. -/
def ofLong (text : String) : Except ArgumentFault Argument :=
  let (front, behind) := splitEquals text.toList
  let matching := CommandOption.spellings.filter fun spelling => front.isPrefixOf spelling.1.toList
  let exact := matching.filter fun spelling => spelling.1.toList == front
  match exact ++ matching with
  | [] => .ok (ofUnknown text)
  | (_, option) :: _ =>
      if exact.isEmpty && 1 < matching.length then
        .error (.ambiguous text (matching.map Prod.fst))
      else
        .ok (.long option (behind.map String.ofList))

/-- An argument that starts with one dash and a letter. -/
def ofShort (letter : Char) (rest : List Char) : Argument :=
  match CommandOption.ofLetter? letter, rest with
  | some option, '=' :: text => .short option true text
  | some option, text => .short option false text
  | none, _ => ofUnknown (String.ofList ('-' :: letter :: rest))

/-- What an argument in front of `--` is. -/
def ofText (text : String) : Except ArgumentFault Argument :=
  match text.toList with
  | '-' :: '-' :: _ => ofLong text
  | '-' :: letter :: rest => .ok (ofShort letter rest)
  | _ => .ok (.operand text)

/-- The options of a joined argument, and the rest of it that is no option. -/
def joined (option : CommandOption) (equals : Bool) :
    List Char → Except ArgumentFault (List CommandOption × Option String)
  | [] =>
      if equals then .error (.ignoredText option "") else .ok ([option], none)
  | letter :: rest =>
      if equals || letter = '-' then
        .error (.ignoredText option (String.ofList (letter :: rest)))
      else
        match CommandOption.ofLetter? letter, rest with
        | some next, '=' :: text => do
            let (later, left) ← joined next true text
            return (option :: later, left)
        | some next, text => do
            let (later, left) ← joined next false text
            return (option :: later, left)
        | none, _ => .ok ([option], some (String.ofList ('-' :: letter :: rest)))

end Argument

/-- What the arguments read so far ask for. -/
structure Request where
  verbosity : Nat := 0
  chosen : List CommandOption := []
  program : Option String := none
  unrecognized : List String := []
  /-- The program was the argument read last. -/
  programLast : Bool := false
deriving Repr, DecidableEq

/-- Why reading the command line stops. -/
inductive ArgumentStop
  | fault (fault : ArgumentFault)
  | help
deriving Repr, DecidableEq

namespace Request

def addOption (request : Request) (option : CommandOption) : Except ArgumentStop Request :=
  match option with
  | .help => .error .help
  | .verbose => .ok { request with verbosity := request.verbosity + 1, programLast := false }
  | option =>
      let others := CommandOption.exclusive.filter (· != option)
      match others.find? fun other => request.chosen.contains other with
      | some earlier => .error (.fault (.conflict option earlier))
      | none => .ok { request with chosen := option :: request.chosen, programLast := false }

def addOptions (request : Request) (options : List CommandOption) : Except ArgumentStop Request :=
  options.foldlM addOption request

/-- Take an argument into account that nothing asks for. -/
def addUnrecognized (request : Request) (text : String) : Request :=
  { request with unrecognized := request.unrecognized ++ [text], programLast := false }

/-- Take an operand into account: the first one is the program. -/
def addOperand (request : Request) (text : String) : Request :=
  match request.program with
  | none => { request with program := some text, programLast := true }
  | some _ => request.addUnrecognized text

def add (request : Request) (arg : Argument) : Except ArgumentStop Request :=
  match arg with
  | .operand text => .ok (request.addOperand text)
  | .unknown text => .ok (request.addUnrecognized text)
  | .long option none => request.addOption option
  | .long option (some text) => .error (.fault (.ignoredText option text))
  | .short option equals text => do
      let (options, left) ← (Argument.joined option equals text).mapError .fault
      match left with
      | none => request.addOptions options
      | some text => (request.addUnrecognized text).addOptions options

/-- Take `--` into account: it belongs to the program when it stands right before or behind it. -/
def addMark (request : Request) (operands : List String) : Request :=
  if request.programLast || (request.program.isNone && !operands.isEmpty) then request
  else request.addUnrecognized "--"

def ofArguments (args : List String) : Except ArgumentStop Request := do
  let front := args.takeWhile (· != "--")
  let options ← (front.mapM Argument.ofText).mapError .fault
  let request ← options.foldlM add {}
  match args.dropWhile (· != "--") with
  | [] => return request
  | _ :: operands => return operands.foldl addOperand (request.addMark operands)

end Request

/-- What to do with a program. -/
inductive Mode
  | run
  | check
  | tokens
  | emitTree
deriving Repr, DecidableEq

/-- A complete request: a program and what to do with it. -/
structure Invocation where
  program : String
  mode : Mode
  verbosity : Nat
deriving Repr, DecidableEq

/-- What the options ask for. -/
def Invocation.modeOf (chosen : List CommandOption) : Mode :=
  if chosen.contains .tokens then .tokens
  else if chosen.contains .emitTree then .emitTree
  else if chosen.contains .check then .check
  else .run

/-- Read a complete request. -/
def Invocation.ofArguments (args : List String) : Except ArgumentStop Invocation := do
  let request ← Request.ofArguments args
  match request.program, request.unrecognized with
  | none, _ => .error (.fault .missingProgram)
  | some program, [] => return ⟨program, modeOf request.chosen, request.verbosity⟩
  | some _, unrecognized => .error (.fault (.unrecognized unrecognized))

end ArrowScript
