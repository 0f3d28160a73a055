import BucketStore.Proofs.ContinuationToken
import BucketStore.Proofs.Engine.ObjectReading

namespace BucketStore.Engine

open Listing

variable {e : Engine} {name : String} {stem delimiter startAfter token next : Option String} {cap : Nat}
  {page : TokenPage}

def readByToken (name : String) (stem delimiter startAfter : Option String) (cap : Nat) (e : Engine)
    (token : Option String) : Except StoreError TokenPage :=
  e.listByToken name stem delimiter token startAfter (some cap)

def resumeTokens (p : TokenPage) : Option (Option String) :=
  if p.truncated then some p.nextToken else none

abbrev TokenReading (name : String) (stem delimiter startAfter : Option String) (cap : Nat) :
    Engine → Option String → List (Visit (Option String) TokenPage) → Prop :=
  Reading (readByToken name stem delimiter startAfter cap) resumeTokens (fun _ => True)

def markerOf (startAfter : Option String) : Option String → Option String
  | none => startAfter
  | some token => (ContinuationToken.decode token).toOption

def Decodable (token : Option String) : Prop := ∀ t, token = some t → ∃ m, ContinuationToken.decode t = .ok m

theorem decodable_none : Decodable none := fun _ h => by cases h

theorem decodable_encode (m : String) : Decodable (some (ContinuationToken.encode m)) := by
  rintro _ ⟨rfl⟩
  exact ⟨m, ContinuationToken.decode_encode m⟩

theorem markerOf_encode (m : String) : markerOf startAfter (some (ContinuationToken.encode m)) = some m := by
  rw [markerOf, ContinuationToken.decode_encode]
  rfl

def tokenPage (p : Page Head) : TokenPage := ⟨p, p.nextMarker.map ContinuationToken.encode⟩

theorem listByToken_eq (h : Decodable token) (limit : Option Nat) :
    e.listByToken name stem delimiter token startAfter limit =
      (e.listObjects name stem delimiter (markerOf startAfter token) limit).map tokenPage := by
  have hlist : e.listByToken name stem delimiter token startAfter limit =
      (e.listObjects name stem delimiter (markerOf startAfter token) limit >>= fun p => .ok (tokenPage p)) := by
    cases token with
    | none => rfl
    | some t =>
        obtain ⟨m, hm⟩ := h t rfl
        simp only [listByToken, markerOf, hm]
        rfl
  rw [hlist]
  cases e.listObjects name stem delimiter (markerOf startAfter token) limit <;> rfl

theorem readByToken_eq (h : Decodable token) : readByToken name stem delimiter startAfter cap e token =
    (readObjects name stem delimiter cap e (markerOf startAfter token)).map tokenPage :=
  listByToken_eq h (some cap)

theorem readByToken_eq_ok (h : Decodable token) :
    readByToken name stem delimiter startAfter cap e token = .ok page ↔
      ∃ p, readObjects name stem delimiter cap e (markerOf startAfter token) = .ok p ∧ page = tokenPage p := by
  rw [readByToken_eq h]
  cases readObjects name stem delimiter cap e (markerOf startAfter token) with
  | error cause => simp [Except.map]
  | ok p => simp [Except.map, eq_comm]

theorem resumeTokens_eq_none {p : Page Head} : resumeTokens (tokenPage p) = none ↔ resumeObjects p = none := by
  rw [resumeTokens, resumeObjects, tokenPage]
  cases p.truncated <;> simp

theorem resumeTokens_eq_some {p : Page Head} (hmarker : p.nextMarker ≠ none)
    (more : resumeTokens (tokenPage p) = some next) :
    ∃ m, resumeObjects p = some (some m) ∧ next = some (ContinuationToken.encode m) := by
  obtain ⟨m, hm⟩ := Option.ne_none_iff_exists'.mp hmarker
  rw [resumeTokens, tokenPage] at more
  split at more
  · rename_i htruncated
    refine ⟨m, resumeObjects_eq_some.mpr ⟨htruncated, hm.symm⟩, ?_⟩
    rw [← Option.some.inj more, hm, Option.map_some]
  · cases more

end BucketStore.Engine
