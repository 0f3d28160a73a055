import BucketStore.Proofs.Engine.GeneratedVersions

namespace BucketStore

theorem Versioning.draw_kept {status : Versioning} {n : UInt64}
    (h : (status.draw n).1.filter (· ≠ VersionId.null) = none) : (status.draw n).2 = n := by
  cases status with
  | unset | suspended => rfl
  | enabled => simp [draw, VersionId.ofCounter_ne_null] at h

theorem Bucket.Effect.not_issued {name : String} {n n' : UInt64} {b b' : Bucket} {r : Request} {reply : Reply}
    (h : Bucket.Effect name n b r reply b' n') (hid : r.issued? reply = none) : n' = n := by
  cases h with
  | put | complete => exact Versioning.draw_kept hid
  | mark key id next hdraw =>
      have hkept : (b.versioning.draw n).2 = n := Versioning.draw_kept (by rw [hdraw]; exact hid)
      rwa [hdraw] at hkept
  | keep | configure | forget | drop | start | upload | abort => rfl

namespace Engine

variable {e e' : Engine} {r : Request} {reply : Reply} {rs : List Request} {m : Moment}

theorem Effect.not_issued (h : Effect e r reply e') (hid : r.issued? reply = none) :
    e'.nextVersion = e.nextVersion := by
  cases h with
  | read | create | delete | reset => rfl
  | bucket _ _ _ _ _ _ _ h => exact h.not_issued hid
  | draw => cases hid

theorem not_issued (hid : m.issued? = none) : m.after.nextVersion = m.engine.nextVersion := by
  rcases m.cases_effect with ⟨_, _, hsame⟩ | ⟨reply, houtcome, heffect⟩
  · rw [hsame]
  · rw [Moment.issued?, houtcome] at hid
    exact heffect.not_issued hid

theorem issued_run (time : Nat) (e : Engine) (rs : List Request) :
    ∃ count, (momentsFrom time e rs).filterMap Moment.issued? = VersionId.issue e.nextVersion count ∧
      (e.run rs).2.nextVersion = e.nextVersion + UInt64.ofNat count := by
  induction rs generalizing time e with
  | nil => exact ⟨0, rfl, (UInt64.add_zero _).symm⟩
  | cons r rs ih =>
      obtain ⟨count, hids, hnext⟩ := ih (time + 1) (e.step r).2
      rw [momentsFrom, List.filterMap_cons]
      cases hid : (⟨time, e, r⟩ : Moment).issued? with
      | none =>
          have hsame : (e.step r).2.nextVersion = e.nextVersion := not_issued hid
          rw [hsame] at hids hnext
          exact ⟨count, hids, hnext⟩
      | some id =>
          obtain ⟨rfl, hone⟩ := issued?_eq_some hid
          replace hone : (e.step r).2.nextVersion = e.nextVersion + 1 := hone
          rw [hone] at hids hnext
          exact ⟨count + 1, congrArg (VersionId.ofCounter e.nextVersion :: ·) hids,
            hnext.trans (VersionId.drawn_succ e.nextVersion count).symm⟩

end Engine

namespace VersionId

/-- How the IDs that `count` draws give lie to each other, the counter standing at `first`. -/
structure IssuedInOrder (first : UInt64) (count : Nat) (ids : List String) : Prop where
  length : ids.length = count
  spelled : ∀ i (h : i < ids.length), Spells ids[i] ((first.toNat + i) % 2 ^ 64)
  not_null : null ∉ ids
  restarts : ∀ i (h : i + 1 < ids.length),
    ids[i] = "18446744073709551615" ↔ ids[i + 1] = "00000000000000000000"
  ascending : ids.Pairwise (· < ·) ↔ first.toNat + count ≤ 2 ^ 64
  unwrapped : first.toNat + count ≤ 2 ^ 64 → ∀ i (hi : i < ids.length), Spells ids[i] (first.toNat + i) ∧
    ∀ j (hj : j < ids.length), olderThan ids[i] ids[j] = true ↔ i < j

/-- IDs sort as they were issued until the counter starts over, and an engine issues them one after the other,
whatever it is asked for. -/
theorem issued_in_order (first : UInt64) (count : Nat) :
    IssuedInOrder first count (issue first count) ∧
    ∀ (e : Engine) (rs : List Request), e.nextVersion = first →
      ((e.moments rs).filterMap Moment.issued?).length = count →
      (e.moments rs).filterMap Moment.issued? = issue first count ∧
        (e.run rs).2.nextVersion.toNat = (first.toNat + count) % 2 ^ 64 := by
  constructor
  · exact {
      length := length_issue first count
      spelled := fun i h => spells_issue h
      not_null := null_not_mem_issue
      restarts := fun i h => issue_restarts_iff h
      ascending := issue_ascending_iff
      unwrapped := fun hfits i hi =>
        ⟨value_unwrapped hfits hi ▸ spells_issue hi, fun j hj => olderThan_issue_iff hfits hi hj⟩ }
  · rintro e rs rfl hcount
    obtain ⟨n, hids, hnext⟩ := Engine.issued_run 0 e rs
    obtain rfl : n = count := by rw [← hcount, Engine.moments, hids, length_issue]
    exact ⟨hids, by rw [hnext, toNat_drawn]⟩

def drawsOfEveryKind : List Request :=
  [.createBucket "b", .putObject "b" "k" [1] {}, .putVersioning "b" "Enabled", .putObject "b" "k" [2] {},
    .getObject "b" "none", .deleteObject "b" "k", .putVersioning "b" "Suspended", .putObject "b" "k" [3] {},
    .nextVersionId]

/-- The last two IDs sort, and the one behind them is the ID of zero. -/
theorem issued_around_restart :
    (18446744073709551614 : UInt64).toNat + 2 ≤ 2 ^ 64 ∧
      olderThan "18446744073709551614" "18446744073709551615" = true ∧
      (((Engine.fresh {} 18446744073709551614).moments drawsOfEveryKind).filterMap Moment.issued?) =
        ["18446744073709551614", "18446744073709551615", "00000000000000000000"] := by
  have hfits : (18446744073709551614 : UInt64).toNat + 2 ≤ 2 ^ 64 := by decide
  have hlast := (issued_in_order 18446744073709551614 2).1.unwrapped hfits 0 (by decide)
  have hissued := (issued_in_order 18446744073709551614 3).2 (Engine.fresh {} 18446744073709551614)
    drawsOfEveryKind rfl (by decide)
  have hids : issue 18446744073709551614 3 =
      ["18446744073709551614", "18446744073709551615", "00000000000000000000"] := by decide
  exact ⟨hfits, (hlast.2 1 (by decide)).mpr (by decide), hissued.1.trans hids⟩

end VersionId

end BucketStore
