import BucketStore.Proofs.CanonicalTokens
import BucketStore.Proofs.Engine.TokenReading

namespace BucketStore.Engine

open Listing

variable {e : Engine} {name : String} {stem delimiter startAfter token marker : Option String} {cap : Option Nat}
  {page : TokenPage}

/-- What a client is told that goes on wherever a page says, as long as pages say so and are given. Its calls find
`engines`, one after the other. -/
def followed {Page : Type} (ask : Engine → Option String → Except StoreError Page) (next : Page → Option String) :
    Option String → List Engine → List (Except StoreError Page)
  | _, [] => []
  | place, e :: engines =>
    match ask e place with
    | .error cause => [.error cause]
    | .ok page =>
      match next page with
      | none => [.ok page]
      | some place => .ok page :: followed ask next (some place) engines

section Followed

variable {Page : Type} {ask : Engine → Option String → Except StoreError Page} {next : Page → Option String}
  {place : Option String} {p : Page}

theorem followed_error {cause : StoreError} (h : ask e place = .error cause) (engines : List Engine) :
    followed ask next place (e :: engines) = [.error cause] := by
  rw [followed, h]

theorem followed_last (h : ask e place = .ok p) (hlast : next p = none) (engines : List Engine) :
    followed ask next place (e :: engines) = [.ok p] := by
  simp only [followed, h, hlast]

theorem followed_turn {m : String} (h : ask e place = .ok p) (hmore : next p = some m) (engines : List Engine) :
    followed ask next place (e :: engines) = .ok p :: followed ask next (some m) engines := by
  simp only [followed, h, hmore]

end Followed

theorem followed_byToken (h : Decodable token) (engines : List Engine) :
    followed (fun e token => e.listByToken name stem delimiter token startAfter cap) TokenPage.nextToken token engines =
      (followed (fun e marker => e.listObjects name stem delimiter marker cap) Page.nextMarker
        (markerOf startAfter token) engines).map (Except.map tokenPage) := by
  induction engines generalizing token with
  | nil => rfl
  | cons e engines ih =>
      have hask : e.listByToken name stem delimiter token startAfter cap =
          (e.listObjects name stem delimiter (markerOf startAfter token) cap).map tokenPage := listByToken_eq h cap
      cases hlist : e.listObjects name stem delimiter (markerOf startAfter token) cap with
      | error cause =>
          rw [hlist] at hask
          rw [followed_error hask, followed_error hlist]
          rfl
      | ok p =>
          rw [hlist] at hask
          cases hmarker : p.nextMarker with
          | none =>
              have hlast : (tokenPage p).nextToken = none := by rw [tokenPage, hmarker]; rfl
              rw [followed_last hask hlast, followed_last hlist hmarker]
              rfl
          | some m =>
              have hmore : (tokenPage p).nextToken = some (ContinuationToken.encode m) := by
                rw [tokenPage, hmarker]; rfl
              rw [followed_turn hask hmore, followed_turn hlist hmarker, ih (decodable_encode m), markerOf_encode]
              rfl

theorem nextMarker_isSome_iff {p : Page Head} : p.nextMarker.isSome = true ↔ p.truncated = true ∧ p.items ≠ [] := by
  rw [Page.nextMarker]
  cases p.truncated <;> simp

theorem listByToken_of_error {t : String} {cause : StoreError} (h : ContinuationToken.decode t = .error cause) :
    e.listByToken name stem delimiter (some t) startAfter cap = .error cause := by
  simp [listByToken, h, Except.map, bind, Except.bind]

theorem exists_of_listByToken (h : e.listByToken name stem delimiter token startAfter cap = .ok page) :
    ∃ marker p, e.listObjects name stem delimiter marker cap = .ok p ∧ page = tokenPage p := by
  have htoken : Decodable token := by
    rintro t rfl
    cases hdecode : ContinuationToken.decode t with
    | ok m => exact ⟨m, rfl⟩
    | error cause =>
        rw [listByToken_of_error hdecode] at h
        cases h
  rw [listByToken_eq htoken] at h
  obtain ⟨p, hp, heq⟩ := map_eq_ok.mp h
  exact ⟨_, p, hp, heq.symm⟩

theorem length_listObjects_le {p : Page Head} (h : e.listObjects name stem delimiter marker cap = .ok p) :
    p.items.length ≤ cap.getD e.settings.maxKeys := by
  obtain ⟨b, _, h⟩ := bind_eq_ok.mp h
  rw [← Except.ok.inj h, ObjectStore.listObjects_eq_cut]
  exact Page.length_cut_le _ _

theorem listByToken_counted (h : e.listByToken name stem delimiter token startAfter cap = .ok page) :
    (page.nextToken.isSome = true ↔ page.truncated = true ∧ 0 < page.keyCount) ∧
      page.keyCount = page.rows.length + page.commonPrefixes.length ∧
      page.keyCount ≤ cap.getD e.settings.maxKeys := by
  obtain ⟨marker, p, hp, rfl⟩ := exists_of_listByToken h
  have hcount : (tokenPage p).keyCount = p.items.length := p.length_items.symm
  refine ⟨?_, rfl, hcount ▸ length_listObjects_le hp⟩
  rw [hcount, List.length_pos_iff, tokenPage, Option.isSome_map]
  exact nextMarker_isSome_iff

/-- Listing objects by token is listing them by marker: a client that goes on by the tokens it is handed is given the
pages of a client that starts after the same key and goes on by markers, in every engine and whatever happens between
the pages, with a token on each page that is neither the last one nor empty. The place to start after counts for the
first page alone. What is no token is refused before the bucket is looked for. -/
theorem tokens_follow_markers :
    (∀ engines, followed (fun e token => e.listByToken name stem delimiter token startAfter cap) TokenPage.nextToken
        none engines =
      (followed (fun e marker => e.listObjects name stem delimiter marker cap) Page.nextMarker startAfter engines).map
        (Except.map tokenPage)) ∧
    (∀ (e : Engine) token page, e.listByToken name stem delimiter token startAfter cap = .ok page →
      (page.nextToken.isSome = true ↔ page.truncated = true ∧ 0 < page.keyCount) ∧
      page.keyCount = page.rows.length + page.commonPrefixes.length ∧
      page.keyCount ≤ cap.getD e.settings.maxKeys) ∧
    (∀ (e : Engine) token startAfter', e.listByToken name stem delimiter (some token) startAfter cap =
      e.listByToken name stem delimiter (some token) startAfter' cap) ∧
    ∀ (e : Engine) token, (∀ m, token ≠ ContinuationToken.encode m) →
      ∃ reason, e.listByToken name stem delimiter (some token) startAfter cap = .error (.invalidArgument reason) := by
  refine ⟨followed_byToken decodable_none, fun _ _ _ => listByToken_counted, fun _ _ _ => rfl, fun e token h => ?_⟩
  obtain ⟨reason, hdecode⟩ := ContinuationToken.refused_of_not_token h
  exact ⟨reason, listByToken_of_error hdecode⟩

def accented : Engine :=
  ((fresh {} 0).run [.createBucket "b", .putObject "b" "é/1" [] {}, .putObject "b" "é/2" [] {},
    .putObject "b" "日/本" [] {}, .putObject "b" "😀" [] {}]).2

theorem accented_by_token :
    (followed (fun e token => e.listByToken "b" none (some "/") token (some "a") (some 1)) TokenPage.nextToken none
      (List.replicate 4 accented)).map (fun r => r.toOption.map (fun p => p.items.map Item.mark)) =
        [some ["é/"], some ["日/"], some ["😀"]] ∧
    (∃ page, accented.listByToken "b" none (some "/") none (some "a") (some 1) = .ok page ∧
      page.nextToken.isSome = true ∧ page.keyCount = 1) ∧
    (∀ m, "YR==" ≠ ContinuationToken.encode m) ∧
    ∃ reason, accented.listByToken "absent" none none (some "YR==") none none = .error (.invalidArgument reason) := by
  have hmalformed : ∀ m, "YR==" ≠ ContinuationToken.encode m := by
    intro m h
    have hdecode := ContinuationToken.decode_encode m
    rw [← h] at hdecode
    cases hdecode
  obtain ⟨hfollowed, hcounted, _, _⟩ := @tokens_follow_markers "b" none (some "/") (some "a") (some 1)
  obtain ⟨page, hpage, hmore, hfilled⟩ : ∃ page, accented.listByToken "b" none (some "/") none (some "a") (some 1) =
    .ok page ∧ page.truncated = true ∧ page.keyCount = 1 := ⟨_, rfl, by decide, by decide⟩
  refine ⟨?_, ⟨page, hpage, (hcounted _ _ _ hpage).1.mpr ⟨hmore, by omega⟩, hfilled⟩, hmalformed, ?_⟩
  · rw [hfollowed, List.map_map]
    decide
  · exact tokens_follow_markers.2.2.2 _ _ hmalformed

end BucketStore.Engine
