import TapeMachine.Fault
import TapeMachine.Text.Encoding

/-
Where a program's input comes from: a queue of tokens prepared beforehand, a stream of bytes of
which each request takes one line, or a source that answers every request in its own way.
-/
namespace TapeMachine

inductive Token
  | text (received : List Char)
  | failure (description : String)
  deriving DecidableEq, Repr

inductive Input
  | queue (tokens : List Token)
  | stream (bytes : List UInt8)
  /-- The answer to each request, by its number. The source need not run dry. -/
  | provider (answer : Nat → Token)

namespace Input

def lineFeed : UInt8 := 10

def cutLine : List UInt8 → List UInt8 × List UInt8
  | [] => ([], [])
  | b :: bs =>
    if b = lineFeed then ([b], bs)
    else
      let (line, rest) := cutLine bs
      (b :: line, rest)

def isLineEnd (c : Char) : Bool := c = '\n' || c = '\r'

def lineToken (line : List UInt8) : Token :=
  match Text.decode? line with
  | none => .failure Text.invalidEncoding
  | some s => .text (s.reverse.dropWhile isLineEnd).reverse

def next : Input → Token × Input
  | .queue [] => (.text [], .queue [])
  | .queue (token :: tokens) => (token, .queue tokens)
  | .stream bytes =>
    let (line, rest) := cutLine bytes
    (lineToken line, .stream rest)
  | .provider answer => (answer 0, .provider fun request => answer (request + 1))

def supply (input : Input) (tokens : List Token) : Input :=
  match input with
  | .queue waiting => .queue (waiting ++ tokens)
  | .stream bytes => .stream bytes
  | .provider answer => .provider answer

end Input

def Token.value (limit : Nat) : Token → Except Cause Nat
  | .failure description => .error (.inputFailure description)
  | .text [c] =>
    if 255 < c.toNat then .error (.outOfRange c)
    else if limit ≤ c.toNat then .error (.exceedsLimit c limit)
    else .ok c.toNat
  | .text received => .error (.wrongLength received)

theorem Token.value_eq_error_iff {token : Token} {limit : Nat} {cause : Cause} :
    token.value limit = .error cause ↔
      (∃ description, token = .failure description ∧ cause = .inputFailure description) ∨
      (∃ received, token = .text received ∧ received.length ≠ 1 ∧ cause = .wrongLength received) ∨
      (∃ c, token = .text [c] ∧ 255 < c.toNat ∧ cause = .outOfRange c) ∨
      ∃ c, token = .text [c] ∧ c.toNat ≤ 255 ∧ limit ≤ c.toNat ∧ cause = .exceedsLimit c limit := by
  rcases token with (_ | ⟨c, _ | ⟨d, rest⟩⟩) | description
  · simp [value, eq_comm]
  · simp only [value]
    grind
  · simp [value, eq_comm]
  · simp [value, eq_comm]

theorem Token.value_eq_ok_iff {token : Token} {limit value : Nat} :
    token.value limit = .ok value ↔
      ∃ c, token = .text [c] ∧ c.toNat ≤ 255 ∧ c.toNat < limit ∧ value = c.toNat := by
  rcases token with (_ | ⟨c, _ | ⟨d, rest⟩⟩) | description
  · simp [Token.value]
  · simp only [Token.value]
    grind
  · simp [Token.value]
  · simp [Token.value]

theorem Token.value_lt {token : Token} {limit value : Nat}
    (accepted : token.value limit = .ok value) : value < limit := by
  obtain ⟨c, _, _, fits, rfl⟩ := Token.value_eq_ok_iff.mp accepted
  exact fits

end TapeMachine
