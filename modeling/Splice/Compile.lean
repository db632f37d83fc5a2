import Splice.Token.Stream
import Splice.Tree.Parser

/-!
# From source text to a program
-/

namespace Splice

/-- The coarse sort of a fault, as reports name it. -/
inductive FaultLabel where
  | lexical
  | parse
  | name
  | type
  | runtime
  deriving DecidableEq, Repr

def FaultLabel.text : FaultLabel → String
  | .lexical => "Lexical Error"
  | .parse => "Parse Error"
  | .name => "Name Error"
  | .type => "Type Error"
  | .runtime => "Runtime Error"

inductive CompileFault where
  | scan (fault : ScanFault)
  | parse (fault : ParseFault)
  deriving DecidableEq, Repr

namespace CompileFault

def message : CompileFault → String
  | .scan fault => fault.message
  | .parse fault => fault.message

def label : CompileFault → FaultLabel
  | .scan _ => .lexical
  | .parse _ => .parse

def place : CompileFault → Place
  | .scan fault => fault.place
  | .parse fault => fault.place

end CompileFault

/-- Read a source text; the first fault ends it. -/
def compile (source : String) : Except (Halt CompileFault) Program :=
  match Token.ofSource source with
  | .error halt => .error (halt.map .scan)
  | .ok tokens => (Program.ofTokens tokens).mapError fun fault => .fault (.parse fault)

theorem compile_eq_ok {source : String} {program : Program} :
    compile source = .ok program ↔
      ∃ tokens, Token.ofSource source = .ok tokens ∧ Program.ofTokens tokens = .ok program := by
  unfold compile
  cases Token.ofSource source with
  | error halt =>
    constructor
    · rintro ⟨⟩
    · rintro ⟨_, ⟨⟩, _⟩
  | ok tokens =>
    dsimp only
    constructor
    · intro h
      refine ⟨tokens, rfl, ?_⟩
      cases hparse : Program.ofTokens tokens with
      | error fault =>
        rw [hparse] at h
        cases h
      | ok parsed =>
        rw [hparse] at h
        cases h
        rfl
    · rintro ⟨_, ⟨⟩, hparse⟩
      rw [hparse]
      rfl

theorem compile_of_crash {source : String} (h : Token.ofSource source = .error .crash) :
    compile source = .error .crash := by
  rw [compile, h]
  rfl

end Splice
