import Mathlib.Data.List.Forall2
import OneTimeSig.Logged

/-!
# Outcomes of computations that may fail

A computation ends with a value or with an error, and some also keep a record. `ok_bind` and
`error_bind` run the first step of one, `bind_eq_ok_iff` and `bind_eq_error_iff` take a successful
one and a failed one apart, and `mapM_eq_ok_iff` and `mapM_eq_error_iff` do so for a computation
that goes through a list: it succeeds when it does at every element, and else it fails as it does at
the first element where it fails (`FailsFirst`). For a computation with a record,
`Logged.outcome_bind` and `Logged.outcome_mapM` forget the record and leave the ending.
-/

namespace OneTimeSig

variable {ε α β : Type}

@[simp]
theorem ok_bind (a : α) (f : α → Except ε β) : (Except.ok a >>= f) = f a := rfl

@[simp]
theorem error_bind (e : ε) (f : α → Except ε β) : (Except.error e >>= f) = .error e := rfl

/-- A computation that is seen to succeed gives some value. -/
theorem exists_eq_ok_of_isOk {x : Except ε α} (h : x.isOk = true) : ∃ a, x = .ok a := by
  cases x with
  | error e => nomatch h
  | ok a => exact ⟨a, rfl⟩

/-- A computation of two steps succeeds when both do. -/
theorem bind_eq_ok_iff {x : Except ε α} {f : α → Except ε β} {b : β} :
    (x >>= f) = .ok b ↔ ∃ a, x = .ok a ∧ f a = .ok b := by
  cases x with
  | error e => simp
  | ok a => simp

/-- A computation of two steps fails with the error of the first that fails. -/
theorem bind_eq_error_iff {x : Except ε α} {f : α → Except ε β} {e : ε} :
    (x >>= f) = .error e ↔ x = .error e ∨ ∃ a, x = .ok a ∧ f a = .error e := by
  cases x with
  | error e' => simp
  | ok a => simp

/-- A computation that goes through a list succeeds when it does at every element. -/
theorem mapM_eq_ok_iff {f : α → Except ε β} {as : List α} {bs : List β} :
    as.mapM f = .ok bs ↔ List.Forall₂ (fun a b => f a = .ok b) as bs := by
  induction as generalizing bs with
  | nil =>
    rw [List.mapM_nil, List.forall₂_nil_left_iff]
    exact ⟨fun h => (Except.ok.inj h).symm, fun h => h ▸ rfl⟩
  | cons a as ih =>
    rw [List.mapM_cons, bind_eq_ok_iff, List.forall₂_cons_left_iff]
    constructor
    · rintro ⟨b, hb, h⟩
      obtain ⟨bs', hbs', h⟩ := bind_eq_ok_iff.mp h
      exact ⟨b, bs', hb, ih.mp hbs', (Except.ok.inj h).symm⟩
    · rintro ⟨b, bs', hb, hbs', rfl⟩
      exact ⟨b, hb, bind_eq_ok_iff.mpr ⟨bs', ih.mpr hbs', rfl⟩⟩

/-- Every value that a computation through a list gives is the value at some element. -/
theorem exists_of_mapM_eq_ok {f : α → Except ε β} {as : List α} {bs : List β} {b : β}
    (h : as.mapM f = .ok bs) (hb : b ∈ bs) : ∃ a ∈ as, f a = .ok b := by
  have hall := mapM_eq_ok_iff.mp h
  obtain ⟨i, hi, rfl⟩ := List.getElem_of_mem hb
  have hi' : i < as.length := by rwa [hall.length_eq]
  exact ⟨as[i], List.getElem_mem hi', hall.get hi' hi⟩

/-- What is related to the numbers below a bound in order has something for each of them. -/
theorem exists_getElem?_of_range {R : Nat → β → Prop} {n : Nat} {bs : List β}
    (h : List.Forall₂ R (List.range n) bs) {i : Nat} (hi : i < n) :
    ∃ b, bs[i]? = some b ∧ R i b := by
  have hrange : i < (List.range n).length := by rwa [List.length_range]
  have hi' : i < bs.length := by rwa [← h.length_eq]
  have hR := h.get hrange hi'
  rw [List.get_eq_getElem, List.getElem_range, List.get_eq_getElem] at hR
  exact ⟨bs[i], List.getElem?_eq_getElem hi', hR⟩

/-- At the first element of the list where the computation fails, it fails with the error. -/
inductive FailsFirst (f : α → Except ε β) : List α → ε → Prop
  /-- It fails at the element in front. -/
  | here {a : α} {as : List α} {e : ε} (h : f a = .error e) : FailsFirst f (a :: as) e
  /-- It succeeds at the element in front, and fails later. -/
  | later {a : α} {as : List α} {e : ε} {b : β} (h : f a = .ok b) (hrest : FailsFirst f as e) :
    FailsFirst f (a :: as) e

/-- A computation that goes through a list fails as it does where it fails first. -/
theorem mapM_eq_error_iff {f : α → Except ε β} {as : List α} {e : ε} :
    as.mapM f = .error e ↔ FailsFirst f as e := by
  induction as with
  | nil =>
    rw [List.mapM_nil]
    exact iff_of_false (fun h => by cases h) (fun h => by cases h)
  | cons a as ih =>
    rw [List.mapM_cons, bind_eq_error_iff]
    constructor
    · rintro (ha | ⟨b, hb, h⟩)
      · exact .here ha
      · rcases bind_eq_error_iff.mp h with hrest | ⟨bs, -, h⟩
        · exact .later hb (ih.mp hrest)
        · cases h
    · intro h
      cases h with
      | here ha => exact .inl ha
      | later hb hrest =>
        refine .inr ⟨_, hb, ?_⟩
        rw [ih.mpr hrest, error_bind]

namespace FailsFirst

variable {γ δ : Type} {f : α → Except ε β} {g : γ → Except ε δ}

/-- Where a computation fails first, it does not succeed. -/
theorem not_forall_ok {as : List α} {e : ε} (h : FailsFirst f as e) :
    ¬ ∀ a ∈ as, ∃ b, f a = .ok b := by
  intro hall
  induction h with
  | here ha =>
    obtain ⟨b, hb⟩ := hall _ List.mem_cons_self
    rw [ha] at hb
    nomatch hb
  | later _ _ ih => exact ih (List.forall_mem_cons.mp hall).2

/-- Where a computation fails first, it fails. -/
theorem exists_mem {as : List α} {e : ε} (h : FailsFirst f as e) : ∃ a ∈ as, f a = .error e := by
  induction h with
  | here ha => exact ⟨_, List.mem_cons_self, ha⟩
  | later _ _ ih =>
    obtain ⟨a, hmem, ha⟩ := ih
    exact ⟨a, List.mem_cons_of_mem _ hmem, ha⟩

/-- A computation succeeds at every element, or there is a first one where it fails. -/
theorem forall_ok_or (f : α → Except ε β) (as : List α) :
    (∀ a ∈ as, ∃ b, f a = .ok b) ∨ ∃ e, FailsFirst f as e := by
  induction as with
  | nil => exact .inl (List.forall_mem_nil _)
  | cons a as ih =>
    cases ha : f a with
    | error e => exact .inr ⟨e, .here ha⟩
    | ok b =>
      rcases ih with hall | ⟨e, he⟩
      · exact .inl (List.forall_mem_cons.mpr ⟨⟨b, ha⟩, hall⟩)
      · exact .inr ⟨e, .later ha he⟩

/-- A list is gone through element by element. -/
theorem cons_iff {a : α} {as : List α} {e : ε} :
    FailsFirst f (a :: as) e ↔ f a = .error e ∨ (∃ b, f a = .ok b) ∧ FailsFirst f as e := by
  constructor
  · intro h
    cases h with
    | here ha => exact .inl ha
    | later hb hrest => exact .inr ⟨⟨_, hb⟩, hrest⟩
  · rintro (ha | ⟨⟨b, hb⟩, hrest⟩)
    · exact .here ha
    · exact .later hb hrest

/-- In two lists one after the other it fails first in the former, or in the latter when it succeeds
throughout the former. -/
theorem append_iff {as as' : List α} {e : ε} :
    FailsFirst f (as ++ as') e ↔
      FailsFirst f as e ∨ (∀ a ∈ as, ∃ b, f a = .ok b) ∧ FailsFirst f as' e := by
  induction as with
  | nil =>
    constructor
    · intro h
      exact .inr ⟨List.forall_mem_nil _, h⟩
    · rintro (h | ⟨-, h⟩)
      · nomatch h
      · exact h
  | cons a as ih =>
    rw [List.cons_append, List.forall_mem_cons, cons_iff, cons_iff, ih]
    tauto

/-- What stands behind an element where it fails does not matter. -/
theorem append_iff_of_left {as as' : List α} {e e' : ε} (h : FailsFirst f as e') :
    FailsFirst f (as ++ as') e ↔ FailsFirst f as e := by
  rw [append_iff]
  exact or_iff_left fun hlater => h.not_forall_ok hlater.1

/-- A computation that fails as another does first in the part of its element, fails first as the
other does first in all the parts. -/
theorem flatMap_iff {cs : List γ} {parts : γ → List α} {e : ε}
    (h : ∀ c ∈ cs, ∀ e, g c = .error e ↔ FailsFirst f (parts c) e) :
    FailsFirst f (cs.flatMap parts) e ↔ FailsFirst g cs e := by
  induction cs with
  | nil =>
    exact iff_of_false (fun h => by cases h) (fun h => by cases h)
  | cons c cs ih =>
    rw [List.forall_mem_cons] at h
    -- It succeeds at an element exactly when the other succeeds throughout the part.
    have hok : (∀ a ∈ parts c, ∃ b, f a = .ok b) ↔ ∃ d, g c = .ok d := by
      constructor
      · intro hall
        cases hc : g c with
        | ok d => exact ⟨d, rfl⟩
        | error e => exact absurd hall ((h.1 e).mp hc).not_forall_ok
      · rintro ⟨d, hd⟩
        rcases forall_ok_or f (parts c) with hall | ⟨e, he⟩
        · exact hall
        · rw [(h.1 e).mpr he] at hd
          nomatch hd
    rw [List.flatMap_cons, append_iff, hok, ih h.2, cons_iff, h.1]

/-- The same, with one element for each. -/
theorem map_iff {cs : List γ} {part : γ → α} {e : ε}
    (h : ∀ c ∈ cs, ∀ e, g c = .error e ↔ f (part c) = .error e) :
    FailsFirst f (cs.map part) e ↔ FailsFirst g cs e := by
  rw [List.map_eq_flatMap]
  refine flatMap_iff fun c hc e => ?_
  rw [h c hc, cons_iff]
  constructor
  · exact .inl
  · rintro (he | ⟨-, he⟩)
    · exact he
    · nomatch he

/-- Of the numbers below a bound, nothing needs to be known behind one where the other fails. -/
theorem flatMap_range_iff {g : Nat → Except ε δ} {parts : Nat → List α} {last : Nat} {e e' : ε}
    (h : ∀ c ≤ last, ∀ e, g c = .error e ↔ FailsFirst f (parts c) e) (hlast : g last = .error e')
    (n : Nat) : FailsFirst f ((List.range n).flatMap parts) e ↔ FailsFirst g (List.range n) e := by
  have hfront : ∀ m ≤ last + 1, ∀ e,
      FailsFirst f ((List.range m).flatMap parts) e ↔ FailsFirst g (List.range m) e :=
    fun m hm e => flatMap_iff fun c hc => h c (by rw [List.mem_range] at hc; omega)
  rcases Nat.le_total n (last + 1) with hn | hn
  · exact hfront n hn e
  · obtain ⟨rest, rfl⟩ := Nat.exists_eq_add_of_le hn
    rcases forall_ok_or g (List.range (last + 1)) with hall | ⟨first, hfirst⟩
    · obtain ⟨d, hd⟩ := hall last (List.mem_range.mpr last.lt_succ_self)
      rw [hlast] at hd
      nomatch hd
    · have hparts := (hfront _ (Nat.le_refl _) first).mpr hfirst
      rw [List.range_add, List.flatMap_append, append_iff_of_left hparts, append_iff_of_left hfirst]
      exact hfront _ (Nat.le_refl _) e

end FailsFirst

/-- A computation that succeeds at every element succeeds through the list. -/
theorem exists_mapM_eq_ok {f : α → Except ε β} {as : List α} (h : ∀ a ∈ as, ∃ b, f a = .ok b) :
    ∃ bs, as.mapM f = .ok bs := by
  cases hbs : as.mapM f with
  | ok bs => exact ⟨bs, rfl⟩
  | error e => exact absurd h (mapM_eq_error_iff.mp hbs).not_forall_ok

namespace Logged

variable {ω : Type}

@[simp]
theorem outcome_bind (x : Logged ω α) (f : α → Logged ω β) :
    (x >>= f).outcome = x.outcome >>= fun a => (f a).outcome := by
  rw [bind_def]
  cases x.outcome with
  | error e => rfl
  | ok a => rfl

@[simp]
theorem outcome_monadLift (x : Except Error α) :
    (monadLift x : Logged ω α).outcome = x := rfl

/-- The ending of a computation that goes through a list does not depend on the record. -/
theorem outcome_mapM (f : α → Logged ω β) (as : List α) :
    (as.mapM f).outcome = as.mapM fun a => (f a).outcome := by
  induction as with
  | nil => rfl
  | cons a as ih =>
    rw [List.mapM_cons, List.mapM_cons, outcome_bind]
    apply bind_congr
    intro b
    rw [outcome_bind, ih]
    rfl

end Logged

end OneTimeSig
