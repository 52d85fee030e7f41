import PhpCalls.Job
import Mathlib.Tactic.Lemma

set_option autoImplicit false

/-!
# Work that succeeds

How a piece of work that gives a result is put together from smaller ones that give results.

## Main definitions

* `Job.Yields`: work on a disk gives a result and leaves a disk.
* `Job.Faults`: work on a disk ends with a fault and leaves a disk.
* `Job.Settles`: work changes no disk, and has faults of one sort only.

## Main results

* `Job.yields_bind_iff`: one piece of work after another.
* `Job.yields_look_iff`, `Job.yields_change_iff`: reading and changing the disk.
-/

namespace PhpCalls.Job

variable {α β : Type}

/-- Work on the disk `d` gives the result `a` and leaves the disk `d'`. -/
def Yields (x : Job α) (d : Disk) (a : α) (d' : Disk) : Prop := x.run.run d = (.ok a, d')

/-- The second of two pieces of work begins with the disk and the result of the first, unless that
failed. -/
lemma run_bind (x : Job α) (f : α → Job β) (d : Disk) :
    (x >>= f).run.run d = match x.run.run d with
      | (.ok a, d') => (f a).run.run d'
      | (.error e, d') => (.error e, d') := by
  rw [ExceptT.run_bind, StateT.run_bind]
  change (match x.run.run d with | (r, d') => _) = _
  rcases x.run.run d with ⟨_ | _, d'⟩ <;> rfl

/-- Work on a disk gives one result and leaves one disk. -/
lemma Yields.unique {x : Job α} {d d₁ d₂ : Disk} {a b : α} (h₁ : x.Yields d a d₁)
    (h₂ : x.Yields d b d₂) : a = b ∧ d₁ = d₂ := by
  have heq : ((.ok a, d₁) : Except Fault α × Disk) = (.ok b, d₂) := h₁.symm.trans h₂
  cases heq
  exact ⟨rfl, rfl⟩

/-- Two pieces of work give a result through one of the first. -/
lemma yields_bind_iff {x : Job α} {f : α → Job β} {d d'' : Disk} {b : β} :
    (x >>= f).Yields d b d'' ↔ ∃ a d', x.Yields d a d' ∧ (f a).Yields d' b d'' := by
  rw [Yields, run_bind]
  constructor
  · intro h
    rcases hx : x.run.run d with ⟨e | a, d'⟩
    · rw [hx] at h
      cases h
    · rw [hx] at h
      exact ⟨a, d', hx, h⟩
  · rintro ⟨a, d', hx, hf⟩
    rw [Yields] at hx
    rw [hx]
    exact hf

/-- A result that is given needs no work. -/
@[simp] lemma yields_pure_iff {a b : α} {d d' : Disk} :
    (pure a : Job α).Yields d b d' ↔ a = b ∧ d = d' := by
  change ((Except.ok a, d) : Except Fault α × Disk) = (.ok b, d') ↔ _
  simp

/-- Asking for the disk gives it as it is. -/
@[simp] lemma yields_get_iff {d d₁ d' : Disk} :
    (get : Job Disk).Yields d d₁ d' ↔ d = d₁ ∧ d = d' := by
  change ((Except.ok d, d) : Except Fault Disk × Disk) = (.ok d₁, d') ↔ _
  simp

/-- A look at the disk gives what is found and changes nothing. -/
lemma yields_look_iff {fault : FileFault → Fault} {f : Disk → Except FileFault α}
    {d d' : Disk} {a : α} : (look fault f).Yields d a d' ↔ f d = .ok a ∧ d = d' := by
  rw [look, yields_bind_iff]
  constructor
  · rintro ⟨d₁, d₂, hget, h⟩
    obtain ⟨rfl, rfl⟩ := yields_get_iff.1 hget
    cases hf : f d with
    | error e =>
      rw [hf] at h
      cases h
    | ok b =>
      rw [hf] at h
      obtain ⟨rfl, hd⟩ := yields_pure_iff.1 h
      exact ⟨rfl, hd⟩
  · rintro ⟨hf, rfl⟩
    refine ⟨d, d, yields_get_iff.2 ⟨rfl, rfl⟩, ?_⟩
    rw [hf]
    exact yields_pure_iff.2 ⟨rfl, rfl⟩

/-- A change of the disk succeeds with the changed disk. -/
lemma yields_change_iff {fault : Fault} {f : Disk → Except FileFault Disk} {d d' : Disk} :
    (change fault f).Yields d () d' ↔ f d = .ok d' := by
  rw [change, yields_bind_iff]
  constructor
  · rintro ⟨d₁, d₂, hlook, hset⟩
    obtain ⟨hf, rfl⟩ := yields_look_iff.1 hlook
    cases hset
    exact hf
  · intro hf
    exact ⟨d', d, yields_look_iff.2 ⟨hf, rfl⟩, rfl⟩

/-- Work that gives a result on a disk yields it. -/
lemma exists_yields_of_isOk {x : Job α} {d : Disk} (h : (x.run.run d).1.isOk) :
    ∃ a, x.Yields d a (x.run.run d).2 := by
  rcases hx : x.run.run d with ⟨e | a, d'⟩
  · rw [hx] at h
    cases h
  · exact ⟨a, hx⟩

/-! ## Faults -/

/-- The work ends with a fault and leaves a disk. -/
def Faults (x : Job α) (d : Disk) (e : Fault) (d' : Disk) : Prop := x.run.run d = (.error e, d')

/-- Work that fails has no result. -/
lemma Faults.not_yields {x : Job α} {d d₁ d₂ : Disk} {e : Fault} {a : α} (h : x.Faults d e d₁) :
    ¬ x.Yields d a d₂ := by
  intro hx
  have heq : ((.error e, d₁) : Except Fault α × Disk) = (.ok a, d₂) := h.symm.trans hx
  cases heq

/-- What comes after work that fails is not done. -/
lemma Faults.bind {x : Job α} {d d' : Disk} {e : Fault} (h : x.Faults d e d') (f : α → Job β) :
    (x >>= f).Faults d e d' := by
  rw [Faults, run_bind, h]

/-- Work fails if what comes after its first part fails. -/
lemma Yields.bind_faults {x : Job α} {f : α → Job β} {d d' d'' : Disk} {a : α} {e : Fault}
    (hx : x.Yields d a d') (hf : (f a).Faults d' e d'') : (x >>= f).Faults d e d'' := by
  rw [Faults, run_bind, hx]
  exact hf

/-- A handler begins with the disk as the failed work left it. -/
lemma run_tryCatch (x : Job α) (handle : Fault → Job α) (d : Disk) :
    (tryCatch x handle).run.run d = match x.run.run d with
      | (.ok a, d') => (.ok a, d')
      | (.error e, d') => (handle e).run.run d' := by
  rw [ExceptT.run_tryCatch, StateT.run_bind]
  change (match x.run.run d with | (r, d') => _) = _
  rcases x.run.run d with ⟨_ | _, d'⟩ <;> rfl

/-- A result needs no handler. -/
lemma Yields.yields_tryCatch {x : Job α} {d d' : Disk} {a : α} (h : x.Yields d a d')
    (handle : Fault → Job α) : (tryCatch x handle).Yields d a d' := by
  rw [Yields, run_tryCatch, h]

/-- After a fault the handler goes on with the disk that is left. -/
lemma Faults.yields_tryCatch {x : Job α} {handle : Fault → Job α} {d d₁ d' : Disk}
    {e : Fault} {a : α} (h : x.Faults d e d₁) (hhandle : (handle e).Yields d₁ a d') :
    (tryCatch x handle).Yields d a d' := by
  rw [Yields, run_tryCatch, h]
  exact hhandle

/-- The work leaves the disk as it is, with a result or a fault of some sort. -/
def Settles (x : Job α) (sort : Fault → Prop) (d : Disk) : Prop :=
  (∃ a, x.Yields d a d) ∨ ∃ e, sort e ∧ x.Faults d e d

/-- A result that is given leaves the disk as it is. -/
lemma settles_pure (a : α) (sort : Fault → Prop) (d : Disk) : (pure a : Job α).Settles sort d :=
  .inl ⟨a, yields_pure_iff.2 ⟨rfl, rfl⟩⟩

/-- Asking for the disk leaves it as it is. -/
lemma settles_get (sort : Fault → Prop) (d : Disk) : (get : Job Disk).Settles sort d :=
  .inl ⟨d, yields_get_iff.2 ⟨rfl, rfl⟩⟩

/-- Two pieces of work that leave the disk as it is do so one after the other. -/
lemma Settles.bind {x : Job α} {f : α → Job β} {sort : Fault → Prop} {d : Disk}
    (hx : x.Settles sort d) (hf : ∀ a, (f a).Settles sort d) : (x >>= f).Settles sort d := by
  rcases hx with ⟨a, hx⟩ | ⟨e, hsort, hx⟩
  · rcases hf a with ⟨b, hb⟩ | ⟨e, hsort, hfault⟩
    · exact .inl ⟨b, yields_bind_iff.2 ⟨a, d, hx, hb⟩⟩
    · exact .inr ⟨e, hsort, hx.bind_faults hfault⟩
  · exact .inr ⟨e, hsort, hx.bind f⟩

/-- A look at the disk leaves it as it is and fails only by faults of its own sort. -/
lemma settles_look {fault : FileFault → Fault} {sort : Fault → Prop} (h : ∀ e, sort (fault e))
    (f : Disk → Except FileFault α) (d : Disk) : (look fault f).Settles sort d := by
  refine (settles_get sort d).bind fun d₁ => ?_
  cases f d₁ with
  | ok a => exact settles_pure a sort d
  | error e => exact .inr ⟨fault e, h e, rfl⟩

end PhpCalls.Job
