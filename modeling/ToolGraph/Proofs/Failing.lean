/-!
What a computation can fail with. A failure of one of its parts is a failure of the whole, so that the
kind of all its failures is that of its parts.
-/
namespace ToolGraph

def FailsAs {ε α : Type} (kind : ε → Prop) (result : Except ε α) : Prop :=
  ∀ error, result = .error error → kind error

namespace FailsAs
variable {ε δ α β : Type} {kind : ε → Prop}

theorem ok (value : α) : FailsAs kind (.ok value) := by
  intro error failed
  cases failed

theorem error {failure : ε} (known : kind failure) : FailsAs kind (.error failure : Except ε α) := by
  intro other failed
  cases failed
  exact known

theorem pure (value : α) : FailsAs kind (Pure.pure value : Except ε α) := ok value

theorem throw {failure : ε} (known : kind failure) :
    FailsAs kind (throw failure : Except ε α) := error known

theorem throw_bind {failure : ε} (known : kind failure) (next : α → Except ε β) :
    FailsAs kind (MonadExcept.throw failure >>= next) := error known

theorem bind {result : Except ε α} {next : α → Except ε β} (first : FailsAs kind result)
    (rest : ∀ value, result = .ok value → FailsAs kind (next value)) :
    FailsAs kind (result >>= next) := by
  cases result with
  | ok value => exact rest value rfl
  | error failure => exact error (first failure rfl)

theorem map {result : Except ε α} (first : FailsAs kind result) (f : α → β) :
    FailsAs kind (result.map f) := by
  cases result with
  | ok value => exact ok (f value)
  | error failure => exact error (first failure rfl)

theorem mapError {result : Except δ α} {f : δ → ε} (known : ∀ failure, kind (f failure)) :
    FailsAs kind (result.mapError f) := by
  cases result with
  | ok value => exact ok value
  | error failure => exact error (known failure)

theorem mapM {items : List α} {f : α → Except ε β} (each : ∀ item ∈ items, FailsAs kind (f item)) :
    FailsAs kind (items.mapM f) := by
  induction items with
  | nil => exact pure []
  | cons item items ih =>
    rw [List.mapM_cons]
    refine bind (each item List.mem_cons_self) (fun value _ => bind (ih ?_) (fun _ _ => pure _))
    exact fun other member => each other (List.mem_cons_of_mem item member)

theorem mono {other : ε → Prop} {result : Except ε α} (fails : FailsAs kind result)
    (wider : ∀ failure, kind failure → other failure) : FailsAs other result :=
  fun failure failed => wider failure (fails failure failed)

end FailsAs

/-- Whatever a computation returns is good, and whatever it fails with is of a kind. -/
structure Settles {ε α : Type} (good : α → Prop) (kind : ε → Prop) (result : Except ε α) : Prop where
  returns : ∀ value, result = .ok value → good value
  fails : FailsAs kind result

namespace Settles
variable {ε α β : Type} {good : α → Prop} {better : β → Prop} {kind : ε → Prop}

theorem ok {value : α} (known : good value) : Settles good kind (.ok value) where
  returns := by
    rintro _ ⟨⟩
    exact known
  fails := .ok value

theorem pure {value : α} (known : good value) : Settles good kind (Pure.pure value) := ok known

theorem error {failure : ε} (known : kind failure) : Settles good kind (.error failure) where
  returns := by rintro _ ⟨⟩
  fails := .error known

theorem bind {result : Except ε α} {next : α → Except ε β} (first : Settles good kind result)
    (rest : ∀ value, good value → Settles better kind (next value)) :
    Settles better kind (result >>= next) := by
  cases result with
  | ok value => exact rest value (first.returns value rfl)
  | error failure => exact error (first.fails failure rfl)

theorem map {result : Except ε α} {f : α → β} (first : Settles good kind result)
    (known : ∀ value, good value → better (f value)) : Settles better kind (f <$> result) := by
  cases result with
  | ok value => exact ok (known value (first.returns value rfl))
  | error failure => exact error (first.fails failure rfl)

theorem mapM {items : List α} {f : α → Except ε β}
    (each : ∀ item ∈ items, Settles better kind (f item)) :
    Settles (fun values => ∀ value ∈ values, better value) kind (items.mapM f) := by
  induction items with
  | nil => exact pure (by simp)
  | cons item items ih =>
    obtain ⟨head, tail⟩ := List.forall_mem_cons.mp each
    rw [List.mapM_cons]
    exact bind head fun value first => bind (ih tail) fun values others =>
      pure (List.forall_mem_cons.mpr ⟨first, others⟩)

end Settles

theorem FailsAs.settles {ε α : Type} {kind : ε → Prop} {result : Except ε α}
    (fails : FailsAs kind result) : Settles (fun value => result = .ok value) kind result :=
  ⟨fun _ returned => returned, fails⟩

end ToolGraph
