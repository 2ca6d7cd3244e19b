import Mathlib.Algebra.BigOperators.Group.List.Basic
import Mathlib.Algebra.Order.Group.Defs
import Mathlib.Data.List.Induction
import Mathlib.Data.Option.Basic
import Mathlib.Logic.Function.Basic

/-!
# Banks

What a bank is for, without anything about how it is run: accounts that somebody holds in one
currency, and deeds that open an account or post an amount to one. No account is overdrawn or
goes beyond a limit, and every balance is what was posted.

- `Account`, `Bank`: states; one whose balances are not what was posted cannot be built
- `Deed`, `Bank.perform`: what can be done, and what the bank makes of it
- `Bank.conduct`: a history of deeds

## Key Results

- `Bank.journal_of_conduct`: the journal only grows, by what is posted
- `Bank.account_of_conduct`: accounts keep their holders and their currencies, and a balance
  changes by what is posted to it
-/

namespace Evenkeel.Accounting

/-- One account: who holds it, in which currency, and what is on it. -/
@[ext] structure Account (ω κ G : Type*) [Zero G] [LE G] where
  holder : ω
  currency : κ
  balance : G
  nonneg : 0 ≤ balance

variable {ι ω κ G : Type*} [DecidableEq ι] [DecidableEq ω] [DecidableEq κ] [AddCommGroup G]
  [LinearOrder G]

/-- What was posted to an account. -/
def posted (id : ι) (journal : List (ι × G)) : G :=
  ((journal.filter fun p => p.1 = id).map Prod.snd).sum

omit [LinearOrder G] in
@[simp] theorem posted_nil (id : ι) : posted id ([] : List (ι × G)) = 0 := rfl

omit [LinearOrder G] in
theorem posted_append (id : ι) (l l' : List (ι × G)) :
    posted id (l ++ l') = posted id l + posted id l' := by
  simp [posted]

omit [LinearOrder G] in
theorem posted_singleton (id : ι) (p : ι × G) :
    posted id [p] = if p.1 = id then p.2 else 0 := by
  by_cases h : p.1 = id
  · simp [posted, h]
  · simp [posted, h]

omit [LinearOrder G] in
theorem posted_eq_zero {id : ι} {journal : List (ι × G)} (h : ∀ p ∈ journal, p.1 ≠ id) :
    posted id journal = 0 := by
  have hnone : journal.filter (fun p => p.1 = id) = [] := by
    apply List.filter_eq_nil_iff.mpr
    simpa using h
  rw [posted, hnone]
  rfl

/-! ## Banks -/

/-- The accounts, and all that was ever posted to them, oldest first. -/
structure Bank (ι ω κ G : Type*) [DecidableEq ι] [AddCommGroup G] [LinearOrder G] where
  accounts : ι → Option (Account ω κ G)
  journal : List (ι × G)
  balanced : ∀ id a, accounts id = some a → a.balance = posted id journal
  booked : ∀ p ∈ journal, accounts p.1 ≠ none

/-- What can be done at a bank: an account is opened, or its holder posts an amount to it. -/
inductive Deed (ι ω κ G : Type*) where
  | opens (id : ι) (holder : ω) (currency : κ)
  | posts (id : ι) (holder : ω) (currency : κ) (amount : G)

/-- The posting a deed adds to the journal. -/
def Deed.posting : Deed ι ω κ G → Option (ι × G)
  | .opens .. => none
  | .posts id _ _ amount => some (id, amount)

namespace Bank

variable {limit : G} {b b' : Bank ι ω κ G} {id : ι} {a : Account ω κ G} {d : Deed ι ω κ G}

omit [DecidableEq ω] [DecidableEq κ] in
/-- Two banks with the same accounts and the same journal are the same. -/
theorem ext_of_data (haccounts : b.accounts = b'.accounts) (hjournal : b.journal = b'.journal) :
    b = b' := by
  cases b
  cases b'
  cases haccounts
  cases hjournal
  rfl

/-- A new account, with nothing on it. -/
def create (b : Bank ι ω κ G) (id : ι) (holder : ω) (currency : κ) (h : b.accounts id = none) :
    Bank ι ω κ G where
  accounts := Function.update b.accounts id (some ⟨holder, currency, 0, le_refl 0⟩)
  journal := b.journal
  balanced := by
    have hnew : ∀ p ∈ b.journal, p.1 ≠ id := by
      intro p hp heq
      exact b.booked p hp (heq ▸ h)
    intro id' a ha
    by_cases hid : id' = id
    · subst hid
      rw [Function.update_self] at ha
      obtain rfl := Option.some.inj ha
      exact (posted_eq_zero hnew).symm
    · rw [Function.update_of_ne hid] at ha
      exact b.balanced id' a ha
  booked := by
    intro p hp
    by_cases hid : p.1 = id
    · rw [hid, Function.update_self]
      exact Option.some_ne_none _
    · rw [Function.update_of_ne hid]
      exact b.booked p hp

/-- One posting more. -/
def post (b : Bank ι ω κ G) (id : ι) (a : Account ω κ G) (amount : G)
    (h : b.accounts id = some a) (hnonneg : 0 ≤ a.balance + amount) : Bank ι ω κ G where
  accounts := Function.update b.accounts id (some { a with
    balance := a.balance + amount, nonneg := hnonneg })
  journal := b.journal ++ [(id, amount)]
  balanced := by
    intro id' a' ha
    rw [posted_append, posted_singleton]
    by_cases hid : id' = id
    · subst hid
      rw [Function.update_self] at ha
      obtain rfl := Option.some.inj ha
      rw [if_pos rfl, ← b.balanced id' a h]
    · rw [Function.update_of_ne hid] at ha
      rw [if_neg (Ne.symm hid), add_zero]
      exact b.balanced id' a' ha
  booked := by
    intro p hp
    by_cases hid : p.1 = id
    · rw [hid, Function.update_self]
      exact Option.some_ne_none _
    · rw [Function.update_of_ne hid]
      rcases List.mem_append.mp hp with hold | hnew
      · exact b.booked p hold
      · exact absurd (congrArg Prod.fst (List.mem_singleton.mp hnew)) hid

/-- What the bank makes of a deed, if it can be done: an account is opened once, and only its
    holder posts to it, in its currency and within the limits. -/
def perform (limit : G) (b : Bank ι ω κ G) : Deed ι ω κ G → Option (Bank ι ω κ G)
  | .opens id holder currency =>
    if h : b.accounts id = none then some (b.create id holder currency h) else none
  | .posts id holder currency amount =>
    match h : b.accounts id with
    | none => none
    | some a =>
      if hfits : a.holder = holder ∧ a.currency = currency ∧ 0 ≤ a.balance + amount ∧
          a.balance + amount ≤ limit
      then some (b.post id a amount h hfits.2.2.1) else none

theorem perform_opens (holder : ω) (currency : κ) (h : b.accounts id = none) :
    b.perform limit (.opens id holder currency) = some (b.create id holder currency h) :=
  dif_pos h

theorem perform_posts {amount : G} (h : b.accounts id = some a)
    (hnonneg : 0 ≤ a.balance + amount) (hle : a.balance + amount ≤ limit) :
    b.perform limit (.posts id a.holder a.currency amount) =
      some (b.post id a amount h hnonneg) := by
  simp only [perform]
  split
  · rename_i hnone
    rw [h] at hnone
    cases hnone
  · rename_i a' ha'
    obtain rfl := Option.some.inj (h.symm.trans ha')
    exact dif_pos ⟨rfl, rfl, hnonneg, hle⟩

/-- A history of deeds. -/
def conduct (limit : G) (b : Bank ι ω κ G) (ds : List (Deed ι ω κ G)) : Option (Bank ι ω κ G) :=
  ds.foldlM (perform limit) b

theorem conduct_snoc {ds : List (Deed ι ω κ G)} : b.conduct limit (ds ++ [d]) = some b' ↔
    ∃ mid, b.conduct limit ds = some mid ∧ mid.perform limit d = some b' := by
  simp [conduct, List.foldlM_append, Option.bind_eq_some_iff]

/-! ## What a deed does -/

/-- The step lemma: a deed adds its posting, and leaves every account its holder and its
    currency. -/
theorem of_perform (h : b.perform limit d = some b') :
    b'.journal = b.journal ++ d.posting.toList ∧
      ∀ id a, b.accounts id = some a → ∃ a', b'.accounts id = some a' ∧ a'.holder = a.holder ∧
        a'.currency = a.currency := by
  cases d with
  | opens id holder currency =>
    -- the other accounts are left alone, and `id` was no account
    simp only [perform] at h
    split at h
    · rename_i hnone
      obtain rfl := Option.some.inj h
      refine ⟨(List.append_nil _).symm, fun id' a ha => ⟨a, ?_, rfl, rfl⟩⟩
      have hne : id' ≠ id := by
        rintro rfl
        rw [hnone] at ha
        cases ha
      exact (Function.update_of_ne hne _ _).trans ha
    · cases h
  | posts id holder currency amount =>
    -- `id` keeps its holder and its currency; only its balance changes
    simp only [perform] at h
    split at h
    · cases h
    · rename_i a hid
      split at h
      · obtain rfl := Option.some.inj h
        refine ⟨rfl, fun id' a' ha => ?_⟩
        by_cases heq : id' = id
        · subst heq
          obtain rfl := Option.some.inj (hid.symm.trans ha)
          exact ⟨_, Function.update_self .., rfl, rfl⟩
        · exact ⟨a', (Function.update_of_ne heq _ _).trans ha, rfl, rfl⟩
      · cases h

/-- The journal is append-only. -/
theorem journal_of_conduct {ds : List (Deed ι ω κ G)} (h : b.conduct limit ds = some b') :
    b'.journal = b.journal ++ ds.filterMap Deed.posting := by
  induction ds using List.reverseRecOn generalizing b' with
  | nil =>
    obtain rfl := Option.some.inj h
    exact (List.append_nil _).symm
  | append_singleton ds d ih =>
    obtain ⟨mid, hmid, hperform⟩ := conduct_snoc.mp h
    rw [(of_perform hperform).1, ih hmid, List.filterMap_append, List.append_assoc]
    cases hd : d.posting with
    | none => simp [hd]
    | some p => simp [hd]

/-- An account stays its holder's and in its currency, and its balance changes by what the
    history posts to it. -/
theorem account_of_conduct {ds : List (Deed ι ω κ G)} (h : b.conduct limit ds = some b')
    (ha : b.accounts id = some a) : ∃ a', b'.accounts id = some a' ∧ a'.holder = a.holder ∧
      a'.currency = a.currency ∧
        a'.balance = a.balance + posted id (ds.filterMap Deed.posting) := by
  have hkept : ∃ a', b'.accounts id = some a' ∧ a'.holder = a.holder ∧
      a'.currency = a.currency := by
    induction ds using List.reverseRecOn generalizing b' with
    | nil =>
      obtain rfl := Option.some.inj h
      exact ⟨a, ha, rfl, rfl⟩
    | append_singleton ds d ih =>
      obtain ⟨mid, hmid, hperform⟩ := conduct_snoc.mp h
      obtain ⟨a₁, ha₁, hholder, hcurrency⟩ := ih hmid
      obtain ⟨a₂, ha₂, hholder', hcurrency'⟩ := (of_perform hperform).2 id a₁ ha₁
      exact ⟨a₂, ha₂, hholder'.trans hholder, hcurrency'.trans hcurrency⟩
  obtain ⟨a', ha', hholder, hcurrency⟩ := hkept
  refine ⟨a', ha', hholder, hcurrency, ?_⟩
  rw [b'.balanced id a' ha', journal_of_conduct h, posted_append, ← b.balanced id a ha]

end Bank

end Evenkeel.Accounting
