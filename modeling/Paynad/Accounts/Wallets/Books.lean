import Mathlib.Algebra.Ring.Int.Defs
import Paynad.Accounts.Wallets.WalletsService
import Paynad.Library.Running

/-!
# The books of the wallets

`Books` is what the two tables promise together: keys are unique, every entry
belongs to a wallet and moves its balance by its amount, and the entries of a
wallet chain its balance from zero. The four writes of the service keep it.
-/

namespace Paynad

namespace Accounts

open Shared Running

namespace LedgerEntry

def delta (entry : LedgerEntry) : ℤ :=
  if entry.type = .CREDIT then entry.amount else -entry.amount

/-- An entry is a credit or a debit, and its two balances differ by its amount. -/
structure Balanced (entry : LedgerEntry) : Prop where
  type : entry.type = .CREDIT ∨ entry.type = .DEBIT
  after : entry.balanceAfter = entry.balanceBefore + entry.delta

end LedgerEntry

def entriesOf (entries : List LedgerEntry) (id : String) : List LedgerEntry :=
  entries.filter fun entry => entry.walletId = id

/-- The entries lead the balance of a wallet from zero to its present value. -/
def Explained (entries : List LedgerEntry) (id : String) (balance : ℤ) : Prop :=
  Chained LedgerEntry.balanceBefore LedgerEntry.balanceAfter 0 (entriesOf entries id) balance

structure Books (wallets : List Wallet) (entries : List LedgerEntry) : Prop where
  ids : Table.Unique Wallet.id wallets
  references : Table.Unique Wallet.reference wallets
  keys : Table.Unique LedgerEntry.key entries
  owned : ∀ entry ∈ entries, ∃ wallet ∈ wallets, wallet.id = entry.walletId
  balanced : ∀ entry ∈ entries, entry.Balanced
  explained : ∀ wallet ∈ wallets, Explained entries wallet.id wallet.balance
  available : ∀ wallet ∈ wallets, 0 ≤ wallet.balance - wallet.reservedAmount

variable {wallets : List Wallet} {entries : List LedgerEntry} {row wallet : Wallet}
  {entry : LedgerEntry} {id : String}

theorem entriesOf_insert_self (h : entry.walletId = id) :
    entriesOf (Table.insert entries entry) id = entriesOf entries id ++ [entry] := by
  simp [entriesOf, Table.insert, h]

theorem entriesOf_insert_of_ne (h : entry.walletId ≠ id) :
    entriesOf (Table.insert entries entry) id = entriesOf entries id := by
  simp [entriesOf, Table.insert, h]

theorem sum_delta (h : ∀ entry ∈ entries, entry.Balanced) :
    (entries.map LedgerEntry.delta).sum =
      ((entries.filter fun entry => entry.type = .CREDIT).map LedgerEntry.amount).sum -
        ((entries.filter fun entry => entry.type = .DEBIT).map LedgerEntry.amount).sum := by
  induction entries with
  | nil => rfl
  | cons entry entries ih =>
      have hrest := ih fun entry he => h entry (List.mem_cons_of_mem _ he)
      rw [List.map_cons, List.sum_cons, hrest, LedgerEntry.delta]
      rcases (h entry (List.mem_cons_self ..)).type with htype | htype
      · simp [htype, add_sub_assoc]
      · simp only [htype, reduceCtorEq, ite_false, decide_false, decide_true,
          Bool.false_eq_true, not_false_eq_true, List.filter_cons_of_neg,
          List.filter_cons_of_pos, List.map_cons, List.sum_cons]
        omega

theorem Books.balance_eq (h : Books wallets entries) (hwallet : wallet ∈ wallets) :
    wallet.balance =
      (((entriesOf entries wallet.id).filter fun entry =>
          entry.type = .CREDIT).map LedgerEntry.amount).sum -
        (((entriesOf entries wallet.id).filter fun entry =>
          entry.type = .DEBIT).map LedgerEntry.amount).sum := by
  have hbalanced : ∀ entry ∈ entriesOf entries wallet.id, entry.Balanced := fun entry he =>
    h.balanced entry (List.mem_of_mem_filter he)
  have hsum := (h.explained wallet hwallet).sum fun entry he => (hbalanced entry he).after
  rw [hsum, zero_add, sum_delta hbalanced]

/-- A row of a wallet that is not the one rewritten, and the version written, are the
rows after a rewrite. -/
theorem mem_rewrite (h : wallet ∈ Table.modify Wallet.id wallets id fun _ => row) :
    (wallet ∈ wallets ∧ wallet.id ≠ id) ∨ wallet = row := by
  rcases Table.mem_modify h with h | ⟨_, _, _, rfl⟩
  · exact .inl h
  · exact .inr rfl

theorem Books.empty : Books [] [] where
  ids := .nil _
  references := .nil _
  keys := .nil _
  owned := by simp
  balanced := by simp
  explained := by simp
  available := by simp

/-- A movement is recorded: its row has accepted it and its key is new. -/
theorem Books.record (h : Books wallets entries) {delta : ℤ} {currency : String}
    (hrow : Table.find Wallet.id wallets id = some row)
    (haccepts : row.accepts delta currency = true)
    (hkey : Table.find LedgerEntry.key entries entry.key = none)
    (hwallet : entry.walletId = id) (hbefore : entry.balanceBefore = row.balance)
    (hafter : entry.balanceAfter = (row.move delta).balance) (hentry : entry.Balanced) :
    Books (Table.modify Wallet.id wallets id fun _ => row.move delta)
      (Table.insert entries entry) := by
  have hid : row.id = id := Table.key_of_find hrow
  have hmem : row ∈ wallets := Table.mem_of_find hrow
  have honly : ∀ wallet ∈ wallets, wallet.id = id → wallet = row := by
    intro wallet hwallet hwid
    have hfind := h.ids.find_of_mem hwallet
    rw [hwid, hrow] at hfind
    exact (Option.some.inj hfind).symm
  have hmoved : row.move delta ∈ Table.modify Wallet.id wallets id fun _ => row.move delta :=
    List.mem_map.mpr ⟨row, hmem, by simp [hid]⟩
  refine ⟨?_, ?_, h.keys.insert hkey, ?_, ?_, ?_, ?_⟩
  · exact h.ids.modify fun _ _ => hid
  · have hsame : ∀ wallet ∈ wallets, wallet.id = id →
        (row.move delta).reference = wallet.reference := by
      intro wallet hmem' hwid
      rw [honly wallet hmem' hwid]
      rfl
    rw [Table.Unique, Table.map_modify hsame]
    exact h.references
  · intro entry' he
    rcases List.mem_append.mp he with he | he
    · obtain ⟨wallet, hmem', hwid⟩ := h.owned entry' he
      by_cases hwallet' : wallet.id = id
      · exact ⟨_, hmoved, by rw [← hwid, hwallet']; exact hid⟩
      · exact ⟨wallet, List.mem_map.mpr ⟨wallet, hmem', by simp [hwallet']⟩, hwid⟩
    · obtain rfl := List.mem_singleton.mp he
      exact ⟨_, hmoved, hid.trans hwallet.symm⟩
  · intro entry' he
    rcases List.mem_append.mp he with he | he
    · exact h.balanced entry' he
    · obtain rfl := List.mem_singleton.mp he
      exact hentry
  · intro wallet hmem'
    rcases mem_rewrite hmem' with ⟨hold, hne⟩ | rfl
    · rw [Explained, entriesOf_insert_of_ne (by rw [hwallet]; exact hne.symm)]
      exact h.explained wallet hold
    · have hself : (row.move delta).id = id := hid
      rw [Explained, hself, entriesOf_insert_self hwallet, chained_concat]
      refine ⟨?_, hafter⟩
      rw [hbefore, ← hid]
      exact h.explained row hmem
  · intro wallet hmem'
    rcases mem_rewrite hmem' with ⟨hold, -⟩ | rfl
    · exact h.available wallet hold
    · exact Wallet.available_move (h.available row hmem) haccepts

theorem Books.setStatus (h : Books wallets entries) (status : WalletStatus) :
    Books (Table.modify Wallet.id wallets id fun row => { row with status := status })
      entries := by
  have hrow : ∀ wallet ∈ Table.modify Wallet.id wallets id fun row =>
      { row with status := status }, ∃ row ∈ wallets, wallet.id = row.id ∧
        wallet.balance = row.balance ∧ wallet.reservedAmount = row.reservedAmount := by
    intro wallet hwallet
    rcases Table.mem_modify hwallet with ⟨hold, -⟩ | ⟨row, hold, -, rfl⟩
    · exact ⟨wallet, hold, rfl, rfl, rfl⟩
    · exact ⟨row, hold, rfl, rfl, rfl⟩
  refine ⟨h.ids.modify fun _ hid => hid, ?_, h.keys, ?_, h.balanced, ?_, ?_⟩
  · refine (congrArg List.Nodup (Table.map_modify ?_)).mpr h.references
    exact fun _ _ _ => rfl
  · intro entry he
    obtain ⟨wallet, hwallet, hwid⟩ := h.owned entry he
    by_cases hid : wallet.id = id
    · exact ⟨_, List.mem_map.mpr ⟨wallet, hwallet, if_pos hid⟩, hwid⟩
    · exact ⟨_, List.mem_map.mpr ⟨wallet, hwallet, if_neg hid⟩, hwid⟩
  · intro wallet hwallet
    obtain ⟨row, hold, hid, hbalance, -⟩ := hrow wallet hwallet
    rw [hid, hbalance]
    exact h.explained row hold
  · intro wallet hwallet
    obtain ⟨row, hold, -, hbalance, hreserved⟩ := hrow wallet hwallet
    rw [hbalance, hreserved]
    exact h.available row hold

/-- What `create` has inserted so far: a wallet without reserved funds, and its opening
entry when there is something to explain. -/
structure Opening (wallet : Wallet) (opening : Option LedgerEntry) : Prop where
  balance_nonneg : 0 ≤ wallet.balance
  reserved : wallet.reservedAmount = 0
  entry : ∀ entry ∈ opening, ∃ trx, entry = openingEntry wallet trx

theorem Opening.balanced {opening : Option LedgerEntry} (h : Opening wallet opening)
    (hentry : entry ∈ opening) : entry.Balanced := by
  obtain ⟨trx, rfl⟩ := h.entry entry hentry
  exact ⟨.inl rfl, by simp [openingEntry, LedgerEntry.delta]⟩

theorem Opening.explained {opening : Option LedgerEntry} (h : Opening wallet opening)
    (hcomplete : ¬ (0 < wallet.balance ∧ opening = none)) :
    Explained opening.toList wallet.id wallet.balance := by
  cases opening with
  | none =>
      have hzero : wallet.balance = 0 := by
        have := h.balance_nonneg
        by_contra hne
        exact hcomplete ⟨by omega, rfl⟩
      simp [Explained, entriesOf, hzero]
  | some entry =>
      obtain ⟨trx, rfl⟩ := h.entry entry rfl
      simp [Explained, entriesOf, openingEntry]

theorem Books.create (h : Books wallets entries) {opening : Option LedgerEntry}
    (hopening : Opening wallet opening) (hid : ∀ row ∈ wallets, row.id ≠ wallet.id)
    (hreference : ∀ row ∈ wallets, row.reference ≠ wallet.reference)
    (hcomplete : ¬ (0 < wallet.balance ∧ opening = none)) :
    Books (Table.insert wallets wallet) (entries ++ opening.toList) := by
  have hforeign : ∀ entry ∈ entries, entry.walletId ≠ wallet.id := by
    intro entry he heq
    obtain ⟨row, hrow, hrid⟩ := h.owned entry he
    exact hid row hrow (hrid.trans heq)
  have hown : ∀ entry ∈ opening, entry.walletId = wallet.id := by
    intro entry he
    obtain ⟨trx, rfl⟩ := hopening.entry entry he
    rfl
  refine ⟨h.ids.insert (Table.find_eq_none_iff.mpr hid),
    h.references.insert (Table.find_eq_none_iff.mpr hreference), ?_, ?_, ?_, ?_, ?_⟩
  · cases hcase : opening with
    | none => simpa using h.keys
    | some entry =>
        refine h.keys.insert (Table.find_eq_none_iff.mpr fun entry' he heq => ?_)
        have hwid : entry'.walletId = entry.walletId := congrArg Prod.fst heq
        exact hforeign entry' he (hwid.trans (hown entry hcase))
  · intro entry he
    rcases List.mem_append.mp he with he | he
    · obtain ⟨row, hrow, hrid⟩ := h.owned entry he
      exact ⟨row, List.mem_append_left _ hrow, hrid⟩
    · refine ⟨wallet, List.mem_append_right _ (List.mem_singleton_self _), ?_⟩
      exact (hown entry (Option.mem_toList.mp he)).symm
  · intro entry he
    rcases List.mem_append.mp he with he | he
    · exact h.balanced entry he
    · exact hopening.balanced (Option.mem_toList.mp he)
  · intro row hrow
    rw [Explained, entriesOf, List.filter_append]
    rcases List.mem_append.mp hrow with hrow | hrow
    · have hnone : opening.toList.filter (fun entry => entry.walletId = row.id) = [] := by
        rw [List.filter_eq_nil_iff]
        intro entry he heq
        have hwid := hown entry (Option.mem_toList.mp he)
        exact hid row hrow ((of_decide_eq_true heq).symm.trans hwid)
      rw [hnone, List.append_nil]
      exact h.explained row hrow
    · obtain rfl := List.mem_singleton.mp hrow
      have hnone : entries.filter (fun entry => entry.walletId = row.id) = [] := by
        rw [List.filter_eq_nil_iff]
        intro entry he heq
        exact hforeign entry he (of_decide_eq_true heq)
      rw [hnone, List.nil_append]
      exact hopening.explained hcomplete
  · intro row hrow
    rcases List.mem_append.mp hrow with hrow | hrow
    · exact h.available row hrow
    · obtain rfl := List.mem_singleton.mp hrow
      have := hopening.balance_nonneg
      rw [hopening.reserved]
      omega

end Accounts

end Paynad
