import Evenkeel.Infrastructure.Reservations

/-!
# An Idempotency Key Applies Once

Requests that carry one key, among any others. As long as the key's entry lives, at most
one of them commits, and every one that returns reports that one entry, whether it wrote
it or found it. Nothing is asked of the lock, and any operation may fail at any time.
-/

namespace Evenkeel.Properties

open Evenkeel.Domain Evenkeel.Application Evenkeel.Effects Evenkeel.Infrastructure
open Evenkeel.Python (sha256)

/-- The requests that carry owner `o`'s key `k`. SHA-256 is taken to tell their payloads
    apart; of the key it is asked that nobody used it within the time to live before. -/
theorem key_applies_once {service : WalletMovementSettings} {settings : MoveMoneySettings}
    {requests : ℕ → Request} {o : OwnerId} {k : String} {now : Instant} {db : Database}
    {idempotency : Entries Receipt} {t : List (Occurrence Op Resp)}
    {Q : Pool deployment Exn Answer} (hunique : db.Unique)
    (hunused : idempotency.Vacant now (scopedKey o k))
    (hsha : ∀ i j m m', (requests i).storeKey = some (scopedKey o k) →
      (requests j).storeKey = some (scopedKey o k) → (requests i).movement = some m →
      (requests j).movement = some m' → sha256 (payload m) = sha256 (payload m') →
      payload m = payload m')
    (hrun : Pool.Run
      (arrivals service settings requests (World.start now db idempotency)) t Q)
    (hlive : Lives now service.idempotencyTtlSeconds Q.world.now) :
    (Q.world.keyed requests (scopedKey o k)).length ≤ 1 ∧
      ∀ i a, (requests i).storeKey = some (scopedKey o k) → Q.clients i = .done (.ok a) →
        ∃ commit row result, Q.world.keyed requests (scopedKey o k) = [commit] ∧
          commit.2.newEntries = [row] ∧ row ∈ Q.world.db.ledger ∧
          a.result = some result ∧ Receives result row := by
  -- one fingerprint has one payload, as long as no two of them collide
  have hnames : Distinguished requests (scopedKey o k) := fun i j m m' hi hj hm hm' hfp =>
    (payload_eq_iff.mp (hsha i j m m' hi hj hm hm' hfp)).1
  obtain ⟨deadline, hbefore, hlasts⟩ := hlive.exists_deadline
  obtain ⟨g, hkeyed, hwp⟩ := keyed_of_run hunique hunused hlasts hnames hrun
  -- what a finished request says of the state it ended in
  have hreports : ∀ i a, (requests i).storeKey = some (scopedKey o k) →
      Q.clients i = .done (.ok a) → ∃ m out, (requests i).movement = some m ∧
        Reports m out (g i) ∧ a.result = some out.result := by
    intro i a hi hdone
    obtain ⟨m, hm, -⟩ := Option.bind_eq_some_iff.mp hi
    have hmeets := hwp i
    rw [hdone] at hmeets
    obtain ⟨out, hout, hresult⟩ := (hmeets.2 a rfl).reports hm
    exact ⟨m, out, hm, hout, hresult⟩
  -- nobody has committed under the key
  rcases hkeyed.phase hbefore with hunbooked | ⟨e, fp, hbooked⟩
  · constructor
    · rw [hunbooked.keyed]
      exact Nat.zero_le 1
    · -- then nobody has returned either
      intro i a hi hdone
      obtain ⟨m, out, -, hout, -⟩ := hreports i a hi hdone
      exact absurd hout (hunbooked.not_reports hi)
  · -- the entry of the one commit is in the ledger
    obtain ⟨j, tx, hcommits, hentries⟩ := hbooked.entered.keyed
    constructor
    · rw [hcommits]
      exact le_refl 1
    · -- and whoever returns reports it
      intro i a hi hdone
      obtain ⟨m, out, hm, hout, hresult⟩ := hreports i a hi hdone
      exact ⟨(j, tx), .ofEntry e, out.result, hcommits, hentries, hbooked.entered.ledger, hresult,
        hbooked.receives hi hi hm hout⟩

/-! A run of requests that all make the same deposit with the same key: the first one gets
through, from its claim to the release of the lock, and the second one is answered with what
the first has written. -/

private def retried : ℕ → Request := fun _ => .apply (Sample.deposit (some "k"))

private def idle : World := World.start 0 Sample.database fun _ => none

theorem key_applies_once_deposit :
    ∃ t Q, Pool.Run (arrivals {} {} retried idle) t Q ∧
      (Q.world.keyed retried (scopedKey Sample.owner "k")).length ≤ 1 ∧
      ∃ commit row, Q.world.keyed retried (scopedKey Sample.owner "k") = [commit] ∧
        commit.2.newEntries = [row] ∧ row ∈ Q.world.db.ledger ∧ row.id = Sample.minted ∧
        ∀ i < 2, ∃ a result, Q.clients i = .done (.ok a) ∧ a.result = some result ∧
          result.replayed = decide (i = 1) ∧ Receives result row := by
  have hrun : ∃ t Q a b, Pool.Run (arrivals {} {} retried idle) t Q ∧ Q.world.now = 0 ∧
      Q.clients 0 = .done (.ok a) ∧
      a.result = some ⟨⟨Sample.minted⟩, Sample.wallet.id, Sample.euro, false⟩ ∧
      Q.clients 1 = .done (.ok b) ∧
      b.result = some ⟨⟨Sample.minted⟩, Sample.wallet.id, Sample.euro, true⟩ := by
    have h := Pool.RunUnder.nil (G := fun _ _ _ _ => True) (P := arrivals {} {} retried idle)
    -- the first call claims the key and deposits
    have h := h.answer 0 rfl _ _ (.inl (Sample.serves_claim rfl rfl)) trivial
    have h := h.answer 0 rfl (.ok true) _ (.inl (.inl ⟨rfl, rfl⟩)) trivial
    have h := h.answer 0 rfl () _ (.inl rfl) trivial
    have h := h.answer 0 rfl (.ok (some Sample.wallet)) _ (.inl ⟨rfl, rfl⟩) trivial
    have h := h.answer 0 rfl (0 : ℤ) _ (.inl rfl) trivial
    have h := h.answer 0 rfl Sample.minted _ (.inl rfl) trivial
    have h := h.answer 0 rfl (.ok ()) _ (.inl ⟨rfl, World.newEntryId_of_blank (by rintro row ⟨⟩)
      (by rintro (_ | j) <;> rfl), rfl⟩) trivial
    have h := h.answer 0 rfl (.ok true) _ (.inl (.inl ⟨rfl, World.free_of_blank
      (by rintro (_ | j) hj; exacts [absurd rfl hj, rfl]), .ofWallet Sample.wallet,
      List.mem_singleton_self _, ⟨rfl, rfl⟩, rfl⟩)) trivial
    have h := h.answer 0 rfl (.ok ()) _ (.inl ⟨rfl, rfl⟩) trivial
    -- it confirms, and leaves the lock
    have h := h.answer 0 rfl _ _
      (.inl (Sample.serves_confirm rfl rfl)) trivial
    have h := h.answer 0 rfl () _ (.inl rfl) trivial
    have h := h.answer 0 rfl (.ok ()) _ (.inl ⟨rfl, rfl⟩) trivial
    -- the retry reads the entry and the wallet back
    have h := h.answer 1 rfl _ _
      (.inl (Sample.serves_replay rfl rfl)) trivial
    have h := h.answer 1 rfl (.ok (some (Sample.entry Sample.minted))) _ (.inl ⟨rfl, rfl⟩) trivial
    have h := h.answer 1 rfl (.ok (some Sample.credited)) _ (.inl ⟨rfl, rfl⟩) trivial
    have h := h.answer 1 rfl (.ok ()) _ (.inl ⟨rfl, rfl⟩) trivial
    exact ⟨_, _, _, _, h, rfl, rfl, rfl, rfl, rfl⟩
  obtain ⟨t, Q, a, b, hrun, hnow, hfirst, hresult, hsecond, hreplay⟩ := hrun
  have hkey : ∀ i, (retried i).storeKey = some (scopedKey Sample.owner "k") := fun _ => rfl
  have honce := key_applies_once (o := Sample.owner) (k := "k")
    (Database.Sound.opened _ _ _ _ _).toUnique (by rintro e ⟨⟩)
    (fun i j m m' _ _ hm hm' _ => by rw [Option.some.inj (hm.symm.trans hm')]) hrun
    (by rw [hnow]; exact Sample.lives_zero)
  -- both calls report the one row
  obtain ⟨commit, row, result, hcommit, hrow, hmem, hsome, hreceives⟩ :=
    honce.2 0 a (hkey 0) hfirst
  obtain rfl := Option.some.inj (hresult.symm.trans hsome)
  refine ⟨t, Q, hrun, honce.1, commit, row, hcommit, hrow, hmem, by rw [← hreceives.entryId], ?_⟩
  intro i hi
  interval_cases i
  · exact ⟨a, _, hfirst, hresult, rfl, hreceives⟩
  · obtain ⟨commit', row', result', hcommit', hrow', -, hsome', hreceives'⟩ :=
      honce.2 1 b (hkey 1) hsecond
    obtain rfl := List.singleton_inj.mp (hcommit.symm.trans hcommit')
    obtain rfl := List.singleton_inj.mp (hrow.symm.trans hrow')
    obtain rfl := Option.some.inj (hreplay.symm.trans hsome')
    exact ⟨b, _, hsecond, hreplay, rfl, hreceives'⟩

end Evenkeel.Properties
