/-
Pairing brackets by one scan from left to right: a closing bracket takes the latest opening bracket
that has no partner yet, and is stray if there is none.
-/
namespace TapeMachine.Source

/-- What a scan has seen so far, as positions counted from zero, the latest first. -/
structure Pairing where
  /-- Opening brackets without a partner. -/
  pending : List Nat := []
  /-- Closing brackets without a partner. -/
  stray : List Nat := []
  deriving DecidableEq, Repr

namespace Pairing

def step (p : Pairing) (index : Nat) (c : Char) : Pairing :=
  if c = '[' then { p with pending := index :: p.pending }
  else if c = ']' then
    match p.pending with
    | [] => { p with stray := index :: p.stray }
    | _ :: outer => { p with pending := outer }
  else p

def scanFrom (p : Pairing) (index : Nat) : List Char → Pairing
  | [] => p
  | c :: cs => (p.step index c).scanFrom (index + 1) cs

def scan (code : List Char) : Pairing := ({} : Pairing).scanFrom 0 code

def firstUnpaired? (p : Pairing) : Option Nat :=
  if p.pending.length = p.stray.length then none
  else
    match p.pending.getLast?, p.stray.getLast? with
    | some opening, some closing => some (min opening closing)
    | some opening, none => some opening
    | none, some closing => some closing
    | none, none => none

theorem scanFrom_append (p : Pairing) (index : Nat) (a b : List Char) :
    p.scanFrom index (a ++ b) = (p.scanFrom index a).scanFrom (index + a.length) b := by
  induction a generalizing p index with
  | nil => rfl
  | cons c cs ih =>
    simp only [List.cons_append, scanFrom, ih, List.length_cons]
    congr 1
    omega

end Pairing

end TapeMachine.Source
