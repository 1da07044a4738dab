import Confide.Program

/-! Two runs side by side. A judgement relates a run of one program with a run of another, each from a
state of its own; the rules follow the way programs are put together. -/
namespace Resumption.Prog

variable {sig : Signature} {α β γ δ ε S : Type} {handle : Handler sig S} {before : S → S → Prop}

/-- From related states the two programs end with related values and in related states. -/
structure Twin (handle : Handler sig S) (before : S → S → Prop) (p : Prog sig α) (q : Prog sig β)
    (after : α → β → S → S → Prop) : Prop where
  ends : ∀ s t, before s t → after (p.run handle s).1 (q.run handle t).1 (p.run handle s).2 (q.run handle t).2

def Same (after : S → S → Prop) (a b : α) (s t : S) : Prop := a = b ∧ after s t

/-- The runs end with one answer, next to values of their own. -/
def Equally (own : β → γ → S → S → Prop) (a : α × β) (b : α × γ) (s t : S) : Prop := a.1 = b.1 ∧ own a.2 b.2 s t

def Paired (returned : α → β → S → S → Prop) (failed : S → S → Prop) : Except ε α → Except ε β → S → S → Prop
  | .ok a, .ok b, s, t => returned a b s t
  | .error e, .error e', s, t => e = e' ∧ failed s t
  | _, _, _, _ => False

theorem Twin.mono {before' : S → S → Prop} {p : Prog sig α} {q : Prog sig β} {after after' : α → β → S → S → Prop}
    (twin : Twin handle before p q after) (first : ∀ s t, before' s t → before s t)
    (last : ∀ a b s t, after a b s t → after' a b s t) : Twin handle before' p q after' :=
  ⟨fun s t related => last _ _ _ _ (twin.ends s t (first s t related))⟩

theorem Twin.ret {a : α} {b : β} {after : α → β → S → S → Prop} (ends : ∀ s t, before s t → after a b s t) :
    Twin handle before (Prog.ret a) (Prog.ret b) after := ⟨ends⟩

theorem Twin.bind {p : Prog sig α} {q : Prog sig β} {f : α → Prog sig γ} {g : β → Prog sig δ}
    {middle : α → β → S → S → Prop} {after : γ → δ → S → S → Prop} (first : Twin handle before p q middle)
    (rest : ∀ a b, Twin handle (middle a b) (f a) (g b) after) : Twin handle before (p >>= f) (q >>= g) after := by
  constructor
  intro s t related
  rw [run_bind,run_bind]
  exact (rest _ _).ends _ _ (first.ends s t related)

/-- The same value on both sides needs no name of its own. -/
theorem Twin.same_bind {p q : Prog sig α} {f g : α → Prog sig γ} {middle : S → S → Prop} {after : γ → γ → S → S → Prop}
    (first : Twin handle before p q (Same middle)) (rest : ∀ a, Twin handle middle (f a) (g a) after) :
    Twin handle before (p >>= f) (q >>= g) after := by
  apply Twin.bind first
  intro a b
  constructor
  intro s t related
  obtain ⟨rfl,related⟩ := related
  exact (rest a).ends s t related

theorem Twin.shared_bind {p : Prog sig (α × β)} {q : Prog sig (α × γ)} {f : α × β → Prog sig δ} {g : α × γ → Prog sig δ}
    {own : β → γ → S → S → Prop} {after : δ → δ → S → S → Prop} (first : Twin handle before p q (Equally own))
    (rest : ∀ a b c, Twin handle (own b c) (f (a,b)) (g (a,c)) after) : Twin handle before (p >>= f) (q >>= g) after := by
  apply Twin.bind first
  intro (a,b) (a',c)
  constructor
  intro s t related
  obtain ⟨rfl,related⟩ : a = a' ∧ own b c s t := related
  exact (rest a b c).ends s t related

theorem Twin.exceptT_bind {p : ExceptT ε (Prog sig) α} {q : ExceptT ε (Prog sig) β} {f : α → ExceptT ε (Prog sig) γ}
    {g : β → ExceptT ε (Prog sig) δ} {returned : α → β → S → S → Prop} {failed : S → S → Prop}
    {after : Except ε γ → Except ε δ → S → S → Prop} (first : Twin handle before p.run q.run (Paired returned failed))
    (stop : ∀ e s t, failed s t → after (.error e) (.error e) s t)
    (rest : ∀ a b, Twin handle (returned a b) (f a).run (g b).run after) :
    Twin handle before (p >>= f).run (q >>= g).run after := by
  apply Twin.bind first
  intro a b
  constructor
  intro s t related
  cases a with
  | ok a =>
    cases b with
    | ok b => exact (rest a b).ends s t related
    | error e => exact related.elim
  | error e =>
    cases b with
    | ok b => exact related.elim
    | error e' =>
      obtain ⟨rfl,related⟩ := related
      exact stop e s t related

theorem Twin.same_exceptT_bind {p q : ExceptT ε (Prog sig) α} {f g : α → ExceptT ε (Prog sig) γ} {middle : S → S → Prop}
    {after : Except ε γ → Except ε γ → S → S → Prop} (first : Twin handle before p.run q.run (Same middle))
    (stop : ∀ e s t, middle s t → after (.error e) (.error e) s t)
    (rest : ∀ a, Twin handle middle (f a).run (g a).run after) : Twin handle before (p >>= f).run (q >>= g).run after := by
  apply Twin.same_bind first
  intro result
  cases result with
  | ok a => exact rest a
  | error e => exact Twin.ret (stop e)

theorem Twin.lift {p : Prog sig α} {q : Prog sig β} {returned : α → β → S → S → Prop} {failed : S → S → Prop}
    (twin : Twin handle before p q returned) :
    Twin handle before (ExceptT.lift p : ExceptT ε (Prog sig) α).run (ExceptT.lift q : ExceptT ε (Prog sig) β).run
      (Paired returned failed) :=
  Twin.bind twin fun _ _ => Twin.ret fun _ _ related => related

theorem Twin.same_lift {p q : Prog sig α} {middle : S → S → Prop} (twin : Twin handle before p q (Same middle)) :
    Twin handle before (ExceptT.lift p : ExceptT ε (Prog sig) α).run (ExceptT.lift q : ExceptT ε (Prog sig) α).run
      (Same middle) :=
  Twin.same_bind twin fun _ => Twin.ret fun _ _ related => ⟨rfl,related⟩

theorem Twin.shared_lift_bind {p : Prog sig (α × β)} {q : Prog sig (α × γ)} {f : α × β → ExceptT ε (Prog sig) δ}
    {g : α × γ → ExceptT ε (Prog sig) δ} {own : β → γ → S → S → Prop} {after : Except ε δ → Except ε δ → S → S → Prop}
    (first : Twin handle before p q (Equally own))
    (rest : ∀ a b c, Twin handle (own b c) (f (a,b)).run (g (a,c)).run after) :
    Twin handle before (ExceptT.lift p >>= f).run (ExceptT.lift q >>= g).run after := by
  rw [ExceptT.run_bind_lift,ExceptT.run_bind_lift]
  exact Twin.shared_bind first rest

end Resumption.Prog
