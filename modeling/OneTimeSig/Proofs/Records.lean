import Mathlib.Tactic.SplitIfs
import OneTimeSig.Signing

/-!
# Which records a computation writes

A computation writes only records with some property when all its steps do, whether they succeed or
fail (`Logged.Writes`). Making a key pair and signing write no record of a failure
(`Scheme.writes_keyPair`, `Scheme.writes_sign`): they end with the error, and leave the record of it
to those who asked.
-/

namespace OneTimeSig

namespace Logged

variable {ω ω' α β : Type} {P : ω → Prop}

/-- Every record that the computation writes, however it ends, has the property. -/
def Writes (P : ω → Prop) (x : Logged ω α) : Prop :=
  ∀ record ∈ x.written, P record

theorem writes_pure (a : α) : (pure a : Logged ω α).Writes P :=
  List.forall_mem_nil P

theorem writes_monadLift (x : Except Error α) : (monadLift x : Logged ω α).Writes P :=
  List.forall_mem_nil P

theorem writes_fail (e : Error) : (fail e : Logged ω α).Writes P :=
  List.forall_mem_nil P

theorem writes_write {record : ω} (h : P record) : (write record).Writes P :=
  List.forall_mem_singleton.mpr h

/-- Two steps write the records of both, or those of the first alone when it fails. -/
theorem Writes.bind {x : Logged ω α} {f : α → Logged ω β} (hx : x.Writes P)
    (hf : ∀ a, (f a).Writes P) : (x >>= f).Writes P := by
  unfold Writes
  rw [bind_def]
  cases x.outcome with
  | ok a => exact List.forall_mem_append.mpr ⟨hx, hf a⟩
  | error e => exact hx

/-- Going through a list writes the records of the elements. -/
theorem writes_mapM {f : α → Logged ω β} (hf : ∀ a, (f a).Writes P) (as : List α) :
    (as.mapM f).Writes P := by
  induction as with
  | nil => exact writes_pure []
  | cons a as ih =>
    rw [List.mapM_cons]
    exact (hf a).bind fun b => ih.bind fun bs => writes_pure (b :: bs)

/-- Other records have the property that theirs is when they are made of those. -/
theorem Writes.mapWritten {Q : ω' → Prop} {x : Logged ω α} {g : ω → ω'} (hx : x.Writes P)
    (hg : ∀ record, P record → Q (g record)) : (x.mapWritten g).Writes Q :=
  List.forall_mem_map.mpr fun record hrecord => hg record (hx record hrecord)

end Logged

/-- A record of a failure. -/
def Event.isFailure (event : Event) : Bool :=
  event.level = .error

namespace Scheme

open Logged (writes_pure writes_monadLift writes_fail writes_write writes_mapM)

/-- Deriving a tree writes no record of a failure. -/
theorem writes_deriveTree (s : Scheme) (keys : Node) (digit : Nat) :
    (s.deriveTree keys digit).Writes (¬ Event.isFailure ·) := by
  unfold deriveTree
  refine (writes_monadLift _).bind fun node => ?_
  refine (writes_monadLift _).bind fun tree => ?_
  refine (writes_write nofun).bind fun _ => ?_
  exact (writes_write nofun).bind fun _ => writes_pure tree

/-- Making a key pair writes no record of a failure. -/
theorem writes_keyPair (s : Scheme) (secret : MasterSecret) :
    (s.keyPair secret).Writes (¬ Event.isFailure ·) := by
  unfold keyPair
  refine (writes_monadLift _).bind fun master => ?_
  refine (writes_monadLift _).bind fun keys => ?_
  refine (writes_mapM (s.writes_deriveTree keys) _).bind fun trees => ?_
  exact (writes_write nofun).bind fun _ => writes_pure _

/-- Signing writes no record of a failure. -/
theorem writes_sign (s : Scheme) (digest : Bytes) (key : SecretKey) :
    (s.sign digest key).Writes (¬ Event.isFailure ·) := by
  unfold sign
  have hproofs : (do
      let proofs ← s.proveDigits 0 key.trees digest
      Logged.write (.signedDigest digest)
      return ⟨proofs⟩ : Logged Event Signature).Writes (¬ Event.isFailure ·) := by
    refine (writes_monadLift _).bind fun proofs => ?_
    exact (writes_write nofun).bind fun _ => writes_pure _
  refine (writes_monadLift _).bind fun _ => ?_
  dsimp only
  split_ifs
  · exact (writes_fail _).bind fun _ => hproofs
  · exact hproofs

end Scheme

end OneTimeSig
