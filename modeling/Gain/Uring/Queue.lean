import Gain.Buffer.RingBuffer

/-! # Requests and completions

A request carries its flag and its key in one word of user data. Requests are
prepared one after the other; an entry with the link flag is chained to the one
prepared next, and the kernel executes the entries of a chain in order and
different chains in any order.
-/

namespace Gain

open List

inductive Flag where
  | accept
  | read
  | write
  | addConn
  | close
  deriving DecidableEq, Repr

namespace Flag

/-- The bit of each flag, counted from the top of the word. -/
def bit : Flag → Nat
  | accept => 63
  | read => 62
  | write => 61
  | addConn => 60
  | close => 59

end Flag

/-- `acceptDataFlag | readDataFlag | writeDataFlag | addConnFlag | closeConnFlag` -/
def allFlagsMask : BitVec 64 := 0xF800000000000000#64

/-- The user data of a request with a flag and a key. -/
def userData (flag : Flag) (key : Int) : BitVec 64 :=
  BitVec.ofNat 64 (2 ^ flag.bit) ||| BitVec.ofInt 64 key

/-- `UserData & ^allFlagsMask` -/
def userKey (data : BitVec 64) : Int := (data &&& ~~~allFlagsMask).toNat

/-- A key below the flags is read back from the user data. -/
theorem userKey_userData (flag : Flag) {key : Int} (nonneg : 0 ≤ key) (small : key < 2 ^ 59) :
    userKey (userData flag key) = key := by
  obtain ⟨n, rfl⟩ := Int.eq_ofNat_of_zero_le nonneg
  have below : n < 2 ^ 59 := by omega
  have mask : ~~~allFlagsMask = BitVec.ofNat 64 (2 ^ 59 - 1) := by decide
  have split : ∀ b : Nat, 59 ≤ b → b < 64 →
      (BitVec.ofNat 64 (2 ^ b)).toNat = 2 ^ 59 * 2 ^ (b - 59) := by
    intro b low high
    rw [BitVec.toNat_ofNat, Nat.mod_eq_of_lt (Nat.pow_lt_pow_right (by decide) high), ← pow_add,
      Nat.add_sub_cancel' low]
  have wide : 59 ≤ flag.bit ∧ flag.bit < 64 := by cases flag <;> decide
  have word : (BitVec.ofInt 64 (n : Int)).toNat = n := by
    rw [BitVec.ofInt_natCast, BitVec.toNat_ofNat, Nat.mod_eq_of_lt (by omega)]
  have ones : (BitVec.ofNat 64 (2 ^ 59 - 1)).toNat = 2 ^ 59 - 1 := by decide
  rw [userKey, userData, mask, BitVec.toNat_and, BitVec.toNat_or, split _ wide.1 wide.2, word,
    ones, ← Nat.two_pow_add_eq_or_of_lt below, Nat.and_two_pow_sub_one_eq_mod,
    Nat.mul_add_mod, Nat.mod_eq_of_lt below]

/-- A request always has a flag. -/
theorem userData_ne_zero (flag : Flag) (key : Int) : userData flag key ≠ 0 := by
  intro zero
  have bare : BitVec.ofNat 64 (2 ^ flag.bit) = 0#64 := (BitVec.or_eq_zero_iff.mp zero).1
  cases flag <;> exact absurd bare (by decide)

/-- A submission queue entry. The object and the life name the connection it is
prepared for and are not part of the entry. -/
structure Sqe where
  flag : Flag
  key : Int
  fd : Int
  addr : Address := ⟨0, 0⟩
  len : Int := 0
  link : Bool := false
  obj : Nat := 0
  life : Nat := 0
  deriving DecidableEq, Repr

/-- A completion queue event: the request, its result, whether the socket has more
to read, and the bytes the kernel moved. -/
structure Cqe where
  sqe : Sqe
  res : Int
  nonempty : Bool := false
  data : List UInt8 := []
  deriving DecidableEq, Repr

/-- `ECANCELED`, the result of the entries behind a failed one in a chain. -/
def ecanceled : Int := -125

def Sqe.cancelled (q : Sqe) : Cqe := { sqe := q, res := ecanceled }

/-- The prepared chains, oldest first. -/
abbrev Chains := List (List Sqe)

namespace Chains

/-- The chain is open: its last entry has the link flag. -/
def linked (c : List Sqe) : Bool := c.getLast?.any Sqe.link

/-- A prepared entry joins the last chain if that is open and starts a new one otherwise. -/
def push : Chains → Sqe → Chains
  | [], q => [[q]]
  | [c], q => if linked c then [c ++ [q]] else [c, [q]]
  | c :: d :: rest, q => c :: push (d :: rest) q

theorem flatten_push (sq : Chains) (q : Sqe) : (push sq q).flatten = sq.flatten ++ [q] := by
  induction sq, q using push.induct with
  | case1 q => rfl
  | case2 c q open' => simp [push, open']
  | case3 c q closed => simp [push, closed]
  | case4 c d rest q ih =>
    rw [push, flatten_cons, ih]
    simp only [flatten_cons, append_assoc]

/-- A chain is replaced by another one. -/
theorem flatten_set_perm {sq : Chains} {i : Nat} {old : List Sqe} (found : sq[i]? = some old)
    (new : List Sqe) : (old ++ (sq.set i new).flatten).Perm (new ++ sq.flatten) := by
  induction sq generalizing i with
  | nil => cases found
  | cons c sq ih =>
    cases i with
    | zero =>
      cases found
      change (old ++ (new ++ sq.flatten)).Perm (new ++ (old ++ sq.flatten))
      rw [← append_assoc, ← append_assoc]
      exact List.perm_append_comm.append_right _
    | succ i =>
      change (old ++ (c ++ (List.set sq i new).flatten)).Perm (new ++ (c ++ sq.flatten))
      have inner := (ih found).append_left c
      rw [← append_assoc, ← append_assoc] at inner ⊢
      exact (List.perm_append_comm.append_right _).trans
        (inner.trans (List.perm_append_comm.append_right _))

end Chains

end Gain
