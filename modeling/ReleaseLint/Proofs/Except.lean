/-
# Computations that can fail

A computation after another one succeeds if both do (`bind_eq_ok`), one behind a check if the
check does not refuse it (`unless_eq_ok`), and one for every entry of a list if each of them
does (`exists_mapM_iff`); the outcomes are those of the entries (`mapM_eq_ok_of_forall₂`,
`mem_of_mapM`, `pairwise_of_mapM`, `mapM_congr`), and a failure is the first one of an entry
(`mapM_eq_error_iff`).

Two computations are `Alike` if both fail or both succeed, with outcomes in a relation; this goes
through `>>=` (`Alike.bind`) and through lists (`Alike.mapM`).
-/

import Mathlib.Data.List.Basic
import Mathlib.Data.List.Forall2

namespace ReleaseLint

variable {α β ε : Type}

theorem bind_eq_ok {x : Except ε α} {g : α → Except ε β} {b : β} :
    (x >>= g) = .ok b ↔ ∃ a, x = .ok a ∧ g a = .ok b := by
  cases x with
  | error e =>
    constructor
    · intro h
      cases h
    · rintro ⟨a, ha, -⟩
      cases ha
  | ok a =>
    constructor
    · exact fun h => ⟨a, rfl, h⟩
    · rintro ⟨a', ha, h⟩
      cases ha
      exact h

/-- What comes behind a computation matters for its outcome only. -/
theorem bind_congr_ok {x : Except ε α} {f g : α → Except ε β} (h : ∀ a, x = .ok a → f a = g a) :
    x >>= f = x >>= g := by
  cases x with
  | error e => rfl
  | ok a => exact h a rfl

theorem toOption_eq_some_iff {x : Except ε α} {a : α} : x.toOption = some a ↔ x = .ok a := by
  cases x with
  | error e => exact iff_of_false (fun h => by cases h) (fun h => by cases h)
  | ok b => exact ⟨fun h => congrArg Except.ok (Option.some.inj h), fun h => h ▸ rfl⟩

/-- What is done unless it is refused. -/
theorem unless_eq_ok {c : Bool} {e : ε} {x : Except ε β} {b : β} :
    (if c = true then (throw e : Except ε PUnit) >>= fun _ => x else x) = .ok b ↔
      c = false ∧ x = .ok b := by
  cases c with
  | true =>
    constructor
    · intro h
      cases h
    · rintro ⟨hc, -⟩
      cases hc
  | false => exact ⟨fun h => ⟨rfl, h⟩, fun h => h.2⟩

theorem bind_eq_error {x : Except ε α} {g : α → Except ε β} {e : ε} :
    (x >>= g) = .error e ↔ x = .error e ∨ ∃ a, x = .ok a ∧ g a = .error e := by
  cases x with
  | error e' =>
    have hbind : ((Except.error e' : Except ε α) >>= g) = .error e ↔ e' = e :=
      ⟨Except.error.inj, congrArg _⟩
    simp [hbind]
  | ok a =>
    have hbind : ((Except.ok a : Except ε α) >>= g) = g a := rfl
    simp [hbind]

theorem unless_eq_error {c : Bool} {e e' : ε} {x : Except ε β} :
    (if c = true then (throw e : Except ε PUnit) >>= fun _ => x else x) = .error e' ↔
      (c = true ∧ e = e') ∨ (c = false ∧ x = .error e') := by
  cases c with
  | true =>
    have hthrow : ((throw e : Except ε PUnit) >>= fun _ => x) = .error e' ↔ e = e' :=
      ⟨Except.error.inj, congrArg _⟩
    simp [hthrow]
  | false => simp

variable {f : α → Except ε β} {a : α} {l : List α} {r : List β}

theorem mapM_nil_eq_ok : ([] : List α).mapM f = .ok r ↔ r = [] :=
  ⟨fun h => (Except.ok.inj h).symm, fun h => congrArg Except.ok h.symm⟩

theorem mapM_cons_eq_ok :
    (a :: l).mapM f = .ok r ↔ ∃ b s, f a = .ok b ∧ l.mapM f = .ok s ∧ r = b :: s := by
  rw [List.mapM_cons, bind_eq_ok]
  constructor
  · rintro ⟨b, hb, h⟩
    obtain ⟨s, hs, hr⟩ := bind_eq_ok.1 h
    exact ⟨b, s, hb, hs, (Except.ok.inj hr).symm⟩
  · rintro ⟨b, s, hb, hs, rfl⟩
    exact ⟨b, hb, bind_eq_ok.2 ⟨s, hs, rfl⟩⟩

theorem exists_mapM_iff : (∃ r, l.mapM f = .ok r) ↔ ∀ a ∈ l, ∃ b, f a = .ok b := by
  induction l with
  | nil => exact iff_of_true ⟨[], rfl⟩ fun a ha => absurd ha List.not_mem_nil
  | cons a l ih =>
    rw [List.forall_mem_cons, ← ih]
    constructor
    · rintro ⟨r, hr⟩
      obtain ⟨b, s, hb, hs, -⟩ := mapM_cons_eq_ok.1 hr
      exact ⟨⟨b, hb⟩, s, hs⟩
    · rintro ⟨⟨b, hb⟩, s, hs⟩
      exact ⟨b :: s, mapM_cons_eq_ok.2 ⟨b, s, hb, hs, rfl⟩⟩

theorem mapM_eq_ok_of_forall₂ (h : List.Forall₂ (fun a b => f a = .ok b) l r) :
    l.mapM f = .ok r := by
  induction h with
  | nil => rfl
  | cons hb _ ih => exact mapM_cons_eq_ok.2 ⟨_, _, hb, ih, rfl⟩

theorem mem_of_mapM (h : l.mapM f = .ok r) {b : β} : b ∈ r ↔ ∃ a ∈ l, f a = .ok b := by
  induction l generalizing r with
  | nil =>
    rw [mapM_nil_eq_ok.1 h]
    simp
  | cons a l ih =>
    obtain ⟨b', s, hb', hs, rfl⟩ := mapM_cons_eq_ok.1 h
    rw [List.mem_cons, ih hs, List.exists_mem_cons_iff, hb', Except.ok.injEq, eq_comm]

/-- The outcomes of two entries stand in the order of the entries. -/
theorem pairwise_of_mapM {R : β → β → Prop} (h : l.mapM f = .ok r) :
    r.Pairwise R ↔ l.Pairwise fun a a' => ∀ b b', f a = .ok b → f a' = .ok b' → R b b' := by
  induction l generalizing r with
  | nil =>
    rw [mapM_nil_eq_ok.1 h]
    exact iff_of_true .nil .nil
  | cons a l ih =>
    obtain ⟨b, s, hb, hs, rfl⟩ := mapM_cons_eq_ok.1 h
    rw [List.pairwise_cons, List.pairwise_cons, ih hs]
    refine and_congr_left fun _ => ⟨fun hr a' ha' b₁ b' hb₁ hb' => ?_, fun hl b' hb' => ?_⟩
    · obtain rfl := Except.ok.inj (hb.symm.trans hb₁)
      exact hr b' ((mem_of_mapM hs).2 ⟨a', ha', hb'⟩)
    · obtain ⟨a', ha', hb'⟩ := (mem_of_mapM hs).1 hb'
      exact hl a' ha' b b' hb hb'

theorem mapM_congr {g : α → Except ε β} (h : ∀ a ∈ l, f a = g a) : l.mapM f = l.mapM g := by
  induction l with
  | nil => rfl
  | cons a l ih =>
    rw [List.forall_mem_cons] at h
    rw [List.mapM_cons, List.mapM_cons, h.1, ih h.2]

/-- The first failure is the outcome. -/
theorem mapM_eq_error_iff {g : α → Option ε} {e : ε}
    (h : ∀ a ∈ l, ∀ e, f a = .error e ↔ g a = some e) :
    l.mapM f = .error e ↔ l.findSome? g = some e := by
  induction l with
  | nil => exact iff_of_false (fun he => by cases he) (fun he => by cases he)
  | cons a l ih =>
    rw [List.forall_mem_cons] at h
    rw [List.mapM_cons, List.findSome?_cons]
    cases hf : f a with
    | error e' =>
      rw [(h.1 e').1 hf]
      exact ⟨fun he => congrArg some (Except.error.inj he), fun he => by rw [Option.some.inj he]; rfl⟩
    | ok b =>
      have hnone : g a = none := by
        refine Option.eq_none_iff_forall_ne_some.2 fun e he => ?_
        rw [(h.1 e).2 he] at hf
        cases hf
      rw [hnone, ← ih h.2]
      cases l.mapM f with
      | error e' => exact Iff.rfl
      | ok r => exact iff_of_false (fun he => by cases he) (fun he => by cases he)

/-- A failure is that of one of the elements. -/
theorem exists_of_mapM_eq_error {e : ε} (h : l.mapM f = .error e) : ∃ a ∈ l, f a = .error e := by
  have hfault (a : α) (e : ε) :
      f a = .error e ↔ (match f a with | .ok _ => none | .error e => some e) = some e := by
    cases f a <;> simp
  obtain ⟨a, ha, he⟩ :=
    List.exists_of_findSome?_eq_some ((mapM_eq_error_iff fun a _ e => hfault a e).1 h)
  exact ⟨a, ha, (hfault a e).2 he⟩

/-! ### Two computations -/

variable {γ δ : Type}

/-- Whether two computations both fail, or both succeed with outcomes in a relation. -/
inductive Alike (R : α → β → Prop) : Except ε α → Except ε β → Prop
  | failed (e e' : ε) : Alike R (.error e) (.error e')
  | succeeded {a : α} {b : β} (h : R a b) : Alike R (.ok a) (.ok b)

namespace Alike

variable {R : α → β → Prop} {S : γ → δ → Prop} {x : Except ε α} {y : Except ε β}

theorem mono {R' : α → β → Prop} (h : Alike R x y) (hR : ∀ a b, R a b → R' a b) :
    Alike R' x y := by
  cases h with
  | failed e e' => exact .failed e e'
  | succeeded h => exact .succeeded (hR _ _ h)

theorem and_left {P : α → Prop} (h : Alike R x y) (hP : ∀ a, x = .ok a → P a) :
    Alike (fun a b => R a b ∧ P a) x y := by
  cases h with
  | failed e e' => exact .failed e e'
  | succeeded h => exact .succeeded ⟨h, hP _ rfl⟩

/-- What both succeed with, if one of them does. -/
theorem of_eq_ok (hx : ∀ a, x = .ok a → ∃ b, y = .ok b ∧ R a b)
    (hy : ∀ b, y = .ok b → ∃ a, x = .ok a) : Alike R x y := by
  cases x with
  | ok a =>
    obtain ⟨b, rfl, hab⟩ := hx a rfl
    exact .succeeded hab
  | error e =>
    cases y with
    | error e' => exact .failed e e'
    | ok b =>
      obtain ⟨a, ha⟩ := hy b rfl
      cases ha

theorem bind {f : α → Except ε γ} {g : β → Except ε δ} (h : Alike R x y)
    (hfg : ∀ a b, R a b → Alike S (f a) (g b)) : Alike S (x >>= f) (y >>= g) := by
  cases h with
  | failed e e' => exact .failed e e'
  | succeeded h => exact hfg _ _ h

theorem mapM {f : α → Except ε γ} {g : β → Except ε δ} {l : List α} {r : List β}
    (h : List.Forall₂ (fun a b => Alike S (f a) (g b)) l r) :
    Alike (List.Forall₂ S) (l.mapM f) (r.mapM g) := by
  induction h with
  | nil => exact .succeeded .nil
  | cons hab _ ih =>
    rw [List.mapM_cons, List.mapM_cons]
    refine hab.bind fun c d hcd => ih.bind fun cs ds hcds => .succeeded (.cons hcd hcds)

end Alike

end ReleaseLint
