import SideProjects.Lib.Runs

/-!
# Computations that leave a log

`Logged ω ε` is for code that may fail and that notes something on its way. What has been noted stays
when it fails. Forgetting the log is a map of monads to `Except ε` (`result_bind`), and what a sequence
has noted is what its parts have (`mem_log_bind`).
-/

universe u v w

structure Logged (ω : Type u) (ε : Type v) (α : Type w) where
  log : List ω
  result : Except ε α

namespace Logged

variable {ω : Type u} {ε : Type v} {α β : Type w}

def ofExcept (x : Except ε α) : Logged ω ε α := ⟨[], x⟩

/-- Note `a`, and go on with `x`. -/
def note (a : ω) (x : Logged ω ε α) : Logged ω ε α := ⟨a :: x.log, x.result⟩

instance instMonad : Monad (Logged ω ε) where
  pure a := ⟨[], .ok a⟩
  bind x f :=
    match x.result with
    | .error e => ⟨x.log, .error e⟩
    | .ok a => ⟨x.log ++ (f a).log, (f a).result⟩

@[simp]
theorem log_ofExcept (x : Except ε α) : (ofExcept x : Logged ω ε α).log = [] := rfl

@[simp]
theorem result_ofExcept (x : Except ε α) : (ofExcept x : Logged ω ε α).result = x := rfl

@[simp]
theorem log_note (a : ω) (x : Logged ω ε α) : (note a x).log = a :: x.log := rfl

@[simp]
theorem result_note (a : ω) (x : Logged ω ε α) : (note a x).result = x.result := rfl

@[simp]
theorem result_bind (x : Logged ω ε α) (f : α → Logged ω ε β) :
    (x >>= f).result = x.result >>= fun a => (f a).result := by
  rcases x with ⟨log, e | a⟩ <;> rfl

@[simp]
theorem log_bind_ofExcept (x : Logged ω ε α) (g : α → Except ε β) :
    (x >>= fun a => ofExcept (g a)).log = x.log := by
  rcases x with ⟨log, e | a⟩
  · rfl
  · exact List.append_nil log

theorem mem_log_bind {x : Logged ω ε α} {f : α → Logged ω ε β} {o : ω} :
    o ∈ (x >>= f).log ↔ o ∈ x.log ∨ ∃ a, x.result = .ok a ∧ o ∈ (f a).log := by
  rcases x with ⟨log, e | a⟩
  · show o ∈ log ↔ _
    simp
  · show o ∈ log ++ (f a).log ↔ _
    simp

/-- What holds of all that the parts note holds of all that the sequence notes. -/
theorem forall_log_bind {x : Logged ω ε α} {f : α → Logged ω ε β} {P : ω → Prop}
    (hx : ∀ o ∈ x.log, P o) (hf : ∀ a, ∀ o ∈ (f a).log, P o) : ∀ o ∈ (x >>= f).log, P o := by
  intro o ho
  rcases mem_log_bind.mp ho with ho | ⟨a, -, ho⟩
  · exact hx o ho
  · exact hf a o ho

end Logged
