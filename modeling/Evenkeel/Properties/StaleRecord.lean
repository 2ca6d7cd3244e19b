import Evenkeel.Infrastructure.StaleRecords

/-!
# A Record that Outlived its Entry

Retries of a completed movement whose ledger entry has disappeared. They are answered with
the record, find nothing, and go on without a reservation.
-/

namespace Evenkeel.Properties

open Evenkeel.Domain Evenkeel.Application Evenkeel.Effects Evenkeel.Infrastructure

/-- Retries with owner `o`'s key `k` and the payload of `m`, whose record names `receipt`: in
    every run in which those that were answered with the record do not overlap, no commit is
    carried out unacknowledged and no confirmation fails, at most one of them commits. The
    tables need not agree with each other. -/
theorem stale_key_applies_once {service : WalletMovementSettings} {settings : MoveMoneySettings}
    {requests : ℕ → Request} {o : OwnerId} {k : String} {m : MovementRequest} {now : Instant}
    {db : Database} {idempotency : Entries Receipt} {receipt : Receipt}
    {t : List (Occurrence Op Resp)} {Q : Pool deployment Exn Answer} (hunique : db.Unique)
    (hpayload : ∀ i m', (requests i).storeKey = some (scopedKey o k) →
      (requests i).movement = some m' → payload m' = payload m)
    (hrun : Pool.RunUnder (Careful requests (scopedKey o k) receipt)
      (arrivals service settings requests (World.start now db idempotency)) t Q)
    (hlive : Lives now service.idempotencyTtlSeconds Q.world.now)
    (hcompleted : ∃ e, idempotency (scopedKey o k) = some e ∧ e.fingerprint = fingerprint m ∧
      e.response = some receipt ∧ monotonic Q.world.now < e.expiresAt) :
    (Q.world.keyed requests (scopedKey o k)).length ≤ 1 := by
  have halike : Alike requests (scopedKey o k) (fingerprint m) m.walletId := by
    intro i m' hkey hm
    have hsame := hpayload i m' hkey hm
    exact ⟨congrArg Python.sha256 hsame, (payload_eq_iff.mp hsame).1⟩
  obtain ⟨e, he, hfp, hresponse, hexpires⟩ := hcompleted
  -- the entry lives on until the earlier of its own expiry and that of a confirmation
  obtain ⟨deadline, hbefore, hlasts⟩ := hlive.exists_deadline
  have hremembers : Remembers (min e.expiresAt deadline) (scopedKey o k) (fingerprint m) receipt
      (World.start now db idempotency) := ⟨e, he, hfp, hresponse, min_le_left _ _⟩
  obtain ⟨g, hrenewed⟩ :=
    renewed_of_run hunique halike hremembers (hlasts.of_le (min_le_right _ _)) hrun
  exact hrenewed.commits_le_one (lt_min hexpires hbefore)

/-! The wallet is there, and the entry the record names is not. -/

private def lost : Receipt := ⟨⟨⟨6, by norm_num⟩⟩, Sample.wallet.id⟩

/-- The row of the first deposit has been deleted, and the wallet still counts it. -/
private def cleaned : Database := ⟨[.ofWallet Sample.credited], [], .ascii⟩

private theorem cleaned_unique : cleaned.Unique := ⟨by decide, List.nodup_nil⟩

private def retries : ℕ → Request := fun _ => .apply (Sample.deposit (some "k"))

private def retryKey : String := scopedKey Sample.owner "k"

private def retryFingerprint : String := fingerprint (Sample.deposit (some "k"))

private def kept : World :=
  World.start 0 cleaned
    (Function.update (fun _ => none) retryKey (some ⟨retryFingerprint, Sample.tomorrow, some lost⟩))

private theorem kept_entry :
    kept.idempotency retryKey = some ⟨retryFingerprint, Sample.tomorrow, some lost⟩ := by
  simp [kept, World.start]

private theorem quiet {receipt : Receipt} {t : List (Occurrence Op Resp)}
    {P P' : Pool deployment Exn Answer} {i : ℕ} {event : Event Op Resp}
    (hrecalls : ¬ Recalls receipt event) (hcommit : ¬ LosesCommit event)
    (hconfirm : ¬ LosesConfirm event) :
    Careful retries retryKey receipt t P (.answered i event) P' := by
  intro j event' heq _
  cases heq
  exact ⟨fun h => absurd h hrecalls, fun h => absurd h hcommit, hconfirm⟩

/-- One retry goes all the way through, and is the only one to commit. -/
theorem stale_key_applies_once_retry : ∃ t Q,
    Pool.RunUnder (Careful retries retryKey lost) (arrivals {} {} retries kept) t Q ∧
      Q.world.commits ≠ [] ∧ (Q.world.keyed retries retryKey).length ≤ 1 := by
  have h := Pool.RunUnder.nil (G := Careful retries retryKey lost)
    (P := arrivals {} {} retries kept)
  have h := h.answer 0 rfl _ kept (.inl (Sample.serves_replay rfl rfl)) (by
    intro i event heq _
    cases heq
    -- nobody has been answered before, with the record or otherwise
    refine ⟨fun _ j _ hengaged => ?_, fun h => h.elim, id⟩
    obtain ⟨_, hevent, _⟩ := hengaged.recalls
    cases hevent)
  have h := h.answer 0 rfl (.ok none) (kept.begin 0) (.inl ⟨rfl, rfl⟩) (quiet id id id)
  have h := h.answer 0 rfl (.ok (some Sample.credited)) ((kept.begin 0).begin 0)
    (.inl ⟨rfl, rfl⟩) (quiet id id id)
  have h := h.answer 0 rfl (.ok true) _ (.inl (.inl ⟨rfl, rfl⟩)) (quiet id id id)
  have h := h.answer 0 rfl () _ (.inl rfl) (quiet id id id)
  have h := h.answer 0 rfl (.ok (some Sample.credited)) _ (.inl ⟨rfl, rfl⟩) (quiet id id id)
  have h := h.answer 0 rfl (0 : ℤ) _ (.inl rfl) (quiet id id id)
  have h := h.answer 0 rfl Sample.minted _ (.inl rfl) (quiet id id id)
  have h := h.answer 0 rfl (.ok ()) _ (.inl ⟨rfl, World.newEntryId_of_blank (by rintro row ⟨⟩)
    (by rintro (_ | j) <;> rfl), rfl⟩) (quiet id id id)
  have h := h.answer 0 rfl (.ok true) _ (.inl (.inl ⟨rfl, World.free_of_blank
    (by rintro (_ | j) hj; exacts [absurd rfl hj, rfl]), .ofWallet Sample.credited,
    List.mem_singleton_self _, ⟨rfl, rfl⟩, rfl⟩)) (quiet id id id)
  have h := h.answer 0 rfl (.ok ()) _ (.inl ⟨rfl, rfl⟩) (quiet id id id)
  have h := h.answer 0 rfl _ _ (.inl (Sample.serves_confirm rfl rfl)) (quiet id id id)
  obtain ⟨t, Q, hrun, hnow, hcommits⟩ : ∃ t Q,
      Pool.RunUnder (Careful retries retryKey lost) (arrivals {} {} retries kept) t Q ∧
        Q.world.now = 0 ∧ ∃ a, Q.world.commits = [a] := ⟨_, _, h, rfl, _, rfl⟩
  refine ⟨t, Q, hrun, ?_, ?_⟩
  · obtain ⟨a, ha⟩ := hcommits
    simp [ha]
  · refine stale_key_applies_once (m := Sample.deposit (some "k"))
      cleaned_unique ?_ hrun ?_ ?_
    · intro i m' _ hm
      obtain rfl := Option.some.inj hm
      rfl
    · rw [hnow]
      exact Sample.lives_zero
    · refine ⟨_, kept_entry, rfl, rfl, ?_⟩
      rw [hnow]
      exact Sample.zero_lt_tomorrow

/-- Two retries that are both answered with the record before either commits: both do. -/
theorem stale_key_applies_twice :
    cleaned.readEntry lost.entryId Sample.owner = .ok none ∧
      cleaned.readWallet lost.walletId Sample.owner = .ok (some Sample.credited) ∧
      ∃ t Q, Pool.Run (arrivals {} {} retries kept) t Q ∧ Q.world.now = 0 ∧
        (Q.world.keyed retries retryKey).length = 2 := by
  refine ⟨rfl, rfl, ?_⟩
  have h := Pool.RunUnder.nil (G := fun _ _ _ _ => True) (P := arrivals {} {} retries kept)
  -- both are told that the movement is complete, and neither finds its entry
  have h := h.answer 0 rfl _ kept (.inl (Sample.serves_replay rfl rfl)) trivial
  have h := h.answer 0 rfl (.ok none) (kept.begin 0) (.inl ⟨rfl, rfl⟩) trivial
  have h := h.answer 0 rfl (.ok (some Sample.credited)) ((kept.begin 0).begin 0)
    (.inl ⟨rfl, rfl⟩) trivial
  have h := h.answer 1 rfl _ ((kept.begin 0).begin 0) (.inl (Sample.serves_replay rfl rfl)) trivial
  have h := h.answer 1 rfl (.ok none) (((kept.begin 0).begin 0).begin 1) (.inl ⟨rfl, rfl⟩) trivial
  have h := h.answer 1 rfl (.ok (some Sample.credited)) ((((kept.begin 0).begin 0).begin 1).begin 1)
    (.inl ⟨rfl, rfl⟩) trivial
  -- the first goes through, lock and all
  have h := h.answer 0 rfl (.ok true) _ (.inl (.inl ⟨rfl, rfl⟩)) trivial
  have h := h.answer 0 rfl () _ (.inl rfl) trivial
  have h := h.answer 0 rfl (.ok (some Sample.credited)) _ (.inl ⟨rfl, rfl⟩) trivial
  have h := h.answer 0 rfl (0 : ℤ) _ (.inl rfl) trivial
  have h := h.answer 0 rfl Sample.minted _ (.inl rfl) trivial
  have h := h.answer 0 rfl (.ok ()) _ (.inl ⟨rfl, World.newEntryId_of_blank (by rintro row ⟨⟩)
    (by rintro (_ | _ | j) <;> rfl), rfl⟩) trivial
  have h := h.answer 0 rfl (.ok true) _ (.inl (.inl ⟨rfl, World.free_of_blank
    (by rintro (_ | _ | j) hj; exacts [absurd rfl hj, rfl, rfl]), .ofWallet Sample.credited,
    List.mem_singleton_self _, ⟨rfl, rfl⟩, rfl⟩)) trivial
  have h := h.answer 0 rfl (.ok ()) _ (.inl ⟨rfl, rfl⟩) trivial
  have h := h.answer 0 rfl _ _ (.inl (Sample.serves_confirm rfl rfl)) trivial
  have h := h.answer 0 rfl () _ (.inl rfl) trivial
  have h := h.answer 0 rfl (.ok ()) _ (.inl ⟨rfl, rfl⟩) trivial
  -- and so does the second, on a wallet that has the first retry's deposit on it already
  have h := h.answer 1 rfl (.ok true) _ (.inl (.inl ⟨rfl, rfl⟩)) trivial
  have h := h.answer 1 rfl () _ (.inl rfl) trivial
  have h := h.answer 1 rfl (.ok (some Sample.twiceCredited)) _ (.inl ⟨rfl, rfl⟩) trivial
  have h := h.answer 1 rfl (0 : ℤ) _ (.inl rfl) trivial
  have h := h.answer 1 rfl Sample.mintedNext _ (.inl rfl) trivial
  have h := h.answer 1 rfl (.ok ()) _ (.inl ⟨rfl, World.newEntryId_of_blank
    (by intro row hrow; obtain rfl := List.mem_singleton.mp hrow; decide)
    (by rintro (_ | _ | j) <;> rfl), rfl⟩) trivial
  have h := h.answer 1 rfl (.ok true) _ (.inl (.inl ⟨rfl, World.free_of_blank
    (by rintro (_ | _ | j) hj; exacts [rfl, absurd rfl hj, rfl]), .ofWallet Sample.twiceCredited,
    List.mem_singleton_self _, ⟨rfl, rfl⟩, rfl⟩)) trivial
  have h := h.answer 1 rfl (.ok ()) _ (.inl ⟨rfl, rfl⟩) trivial
  -- both commits stand, each under the retries' key
  obtain ⟨t, Q, hrun, hnow, a, b, hcommits⟩ : ∃ t Q, Pool.Run (arrivals {} {} retries kept) t Q ∧
      Q.world.now = 0 ∧ ∃ a b, Q.world.commits = [(0, a), (1, b)] :=
    ⟨_, _, h, rfl, _, _, rfl⟩
  refine ⟨t, Q, hrun, hnow, ?_⟩
  have hkey : ∀ i, (retries i).storeKey = some retryKey := fun _ => rfl
  simp only [World.keyed, hcommits, hkey]
  rfl

end Evenkeel.Properties
