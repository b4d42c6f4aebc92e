import DM2022.Assembly.Resolution

/-!
# Images

The words of resolved statements, and the whole way from a source to a program. A program
keeps its statements, so its size is known without its words.
-/
namespace DM2022.Assembly

/-- Encodes an instruction whose label operand, if any, is resolved. -/
def encodeOperation (instr : Instruction) : Option LabelRef → Except EncodeError Word
  | some ⟨name, _, none⟩ => .error (.unresolvedLabel name)
  | _ => instr.encode

namespace Statement

/-- Why the statement cannot be encoded. -/
def encodingError? (s : Statement) : Option AssemblyError :=
  match s.body with
  | .instruction instr ref =>
      (failure? (encodeOperation instr ref)).map fun cause => ⟨s.line, .encoding cause⟩
  | _ => none

/-- The words of the statement; zero stands for an instruction that cannot be encoded. -/
def words (s : Statement) : List Word :=
  match s.body with
  | .empty => []
  | .instruction instr ref => [(encodeOperation instr ref).toOption.getD 0]
  | .data values => values
  | .reserve count => List.replicate count 0

theorem length_words (s : Statement) : s.words.length = s.length := by
  obtain ⟨_, _, body⟩ := s
  cases body with
  | reserve count => exact List.length_replicate
  | _ => rfl

end Statement

/-- The words of all statements, one after the other. -/
def imageOf (statements : List Statement) : List Word := statements.flatMap Statement.words

def imageLength : List Statement → Nat
  | [] => 0
  | s :: rest => s.length + imageLength rest

def imageSize : List Statement → Nat
  | [] => 0
  | s :: rest => s.size + imageSize rest

theorem length_imageOf (statements : List Statement) :
    (imageOf statements).length = imageLength statements := by
  induction statements with
  | nil => rfl
  | cons s rest ih =>
    rw [imageLength, ← ih, ← s.length_words]
    exact List.length_append

/-- The first statement that ends past the address range, from `start` words on. -/
def overlongError? (start : Nat) : List Statement → Option AssemblyError
  | [] => none
  | s :: rest =>
      let stop := start + s.size
      if addressLimit < stop then some ⟨s.line, .imageTooLarge stop⟩
      else overlongError? stop rest

/-- Why the statements have no image. -/
def encodingErrors (statements : List Statement) : List AssemblyError :=
  match overlongError? 0 statements with
  | some e => [e]
  | none => statements.filterMap Statement.encodingError?

/-- The words of all statements, or every encoding error. -/
def encodeStatements (statements : List Statement) :
    Except (List AssemblyError) (List Word) :=
  match encodingErrors statements with
  | [] => .ok (imageOf statements)
  | errors => .error errors

/-- Statements whose image is to be loaded at `origin`, with the addresses of their
labels. -/
structure Program where
  statements : List Statement
  symbols : SymbolTable
  origin : Nat
  deriving DecidableEq

namespace Program

def words (p : Program) : List Word := imageOf p.statements

def size (p : Program) : Nat := imageLength p.statements

/-- The program that has these words and no label. -/
def ofWords (words : List Word) (origin : Nat) : Program :=
  ⟨[⟨1, none, .data words⟩], .empty, origin⟩

theorem length_words (p : Program) : p.words.length = p.size := length_imageOf p.statements

theorem words_ofWords (words : List Word) (origin : Nat) : (ofWords words origin).words = words :=
  List.append_nil words

end Program

/-- The program of a source for the load address `origin`. -/
def assemble (text : List Char) (origin : Nat) : Except (List AssemblyError) Program := do
  let (statements, symbols) ← resolveSource text origin
  match encodingErrors statements with
  | [] => return ⟨statements, symbols, origin⟩
  | errors => .error errors

end DM2022.Assembly
