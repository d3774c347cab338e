/-
A queue of items seen as a stream: what has been taken out, followed by what is
still queued, is what has been put in.

Steps are recorded by what they moved. The balance is kept by each step and so by
any order of steps of any number of parties.
-/

namespace OsCompiler

variable {α : Type}

/-- What one step did to a queue, as seen from outside. -/
inductive StreamEvent (α : Type)
  | idle
  | took (items : List α)
  | put (items : List α)
  | cleared

/-- The items moved since the queue was last cleared. -/
structure Ledger (α : Type) where
  taken : List α
  given : List α

namespace Ledger

def empty : Ledger α := ⟨[], []⟩

def record (ledger : Ledger α) : StreamEvent α → Ledger α
  | .idle => ledger
  | .took items => { ledger with taken := ledger.taken ++ items }
  | .put items => { ledger with given := ledger.given ++ items }
  | .cleared => empty

/-- The queue holds exactly what was given and not yet taken, in order. -/
def Balanced (ledger : Ledger α) (queue : List α) : Prop :=
  ledger.taken ++ queue = ledger.given

end Ledger

/-- The event explains the change of the queue. -/
def StreamEvent.Explains : StreamEvent α → (before after : List α) → Prop
  | .idle, before, after => after = before
  | .took items, before, after => before = items ++ after
  | .put items, before, after => after = before ++ items
  | .cleared, _, after => after = []

theorem Ledger.Balanced.record {ledger : Ledger α} {before after : List α}
    {event : StreamEvent α} (balanced : ledger.Balanced before)
    (explained : event.Explains before after) : (ledger.record event).Balanced after := by
  unfold Ledger.Balanced at balanced ⊢
  cases event with
  | idle =>
      change after = before at explained
      rw [explained]
      exact balanced
  | took items =>
      change before = items ++ after at explained
      change ledger.taken ++ items ++ after = ledger.given
      rw [List.append_assoc, ← explained, balanced]
  | put items =>
      change after = before ++ items at explained
      change ledger.taken ++ after = ledger.given ++ items
      rw [explained, ← List.append_assoc, balanced]
  | cleared =>
      change after = [] at explained
      rw [explained]
      rfl

end OsCompiler
