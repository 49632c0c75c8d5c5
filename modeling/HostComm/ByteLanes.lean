import HostComm.LittleEndian
import HostComm.XorWords

namespace HostComm.ByteLanes

open LittleEndian XorWords

/-- The exclusive or of the bytes from `lane` on that are four apart. -/
def laneSum (mem : Nat → UInt8) (lane : Nat) : Nat → UInt8
  | 0 => 0
  | count + 1 => laneSum mem lane count ^^^ mem (4 * count + lane)

def wordSum (mem : Nat → UInt8) (count : Nat) : UInt32 :=
  xorWords (fun i => word32 [mem (4 * i), mem (4 * i + 1), mem (4 * i + 2), mem (4 * i + 3)]) 0 count

theorem xor_eq_comm {a b c : UInt32} : a ^^^ b = c ↔ a ^^^ c = b := by
  constructor
  all_goals
    rintro rfl
    rw [← UInt32.xor_assoc, UInt32.xor_self, UInt32.zero_xor]

theorem add_xor {a b : Nat} (ha : a < 256) (hb : b < 256) (m n : Nat) :
    (a + 256 * m) ^^^ (b + 256 * n) = (a ^^^ b) + 256 * (m ^^^ n) := by
  have hlow : ((a + 256 * m) ^^^ (b + 256 * n)) % 2 ^ 8 = a ^^^ b := by
    rw [Nat.xor_mod_two_pow, Nat.add_mul_mod_self_left, Nat.add_mul_mod_self_left,
      Nat.mod_eq_of_lt ha, Nat.mod_eq_of_lt hb]
  have hhigh : ((a + 256 * m) ^^^ (b + 256 * n)) / 2 ^ 8 = m ^^^ n := by
    rw [Nat.xor_div_two_pow]
    congr 1 <;> omega
  have hsplit := Nat.mod_add_div ((a + 256 * m) ^^^ (b + 256 * n)) (2 ^ 8)
  rw [hlow, hhigh] at hsplit
  exact hsplit.symm

theorem leValue_xor (as bs : List UInt8) (h : as.length = bs.length) :
    leValue as ^^^ leValue bs = leValue (List.zipWith (· ^^^ ·) as bs) := by
  induction as generalizing bs with
  | nil =>
      rw [List.eq_nil_of_length_eq_zero h.symm]
      rfl
  | cons a as ih =>
      cases bs with
      | nil => cases h
      | cons b bs =>
          have hrest := ih bs (Nat.succ.inj h)
          rw [List.zipWith_cons_cons, leValue, leValue, leValue, add_xor a.toNat_lt b.toNat_lt, hrest,
            UInt8.toNat_xor]

theorem word32_xor (a b c d a' b' c' d' : UInt8) :
    word32 [a, b, c, d] ^^^ word32 [a', b', c', d'] =
      word32 [a ^^^ a', b ^^^ b', c ^^^ c', d ^^^ d'] := by
  have hval := leValue_xor [a, b, c, d] [a', b', c', d'] rfl
  apply UInt32.toNat_inj.mp
  simp only [word32, UInt32.toNat_xor, UInt32.toNat_ofNat', ← Nat.xor_mod_two_pow, hval]
  rfl

theorem word32_inj {a b c d a' b' c' d' : UInt8} (h : word32 [a, b, c, d] = word32 [a', b', c', d']) :
    a = a' ∧ b = b' ∧ c = c' ∧ d = d' := by
  have hbytes := congrArg bytes32 h
  rw [bytes32_word32 rfl, bytes32_word32 rfl] at hbytes
  simpa using hbytes

theorem xorWords_last (w : Nat → UInt32) (count : Nat) :
    xorWords w 0 (count + 1) = xorWords w 0 count ^^^ w count := by
  rw [xorWords_append, Nat.zero_add, xorWords, xorWords_zero, UInt32.xor_zero]

theorem wordSum_lanes (mem : Nat → UInt8) (count : Nat) :
    wordSum mem count = word32 [laneSum mem 0 count, laneSum mem 1 count, laneSum mem 2 count,
      laneSum mem 3 count] := by
  induction count with
  | zero => rfl
  | succ count ih =>
      rw [wordSum] at ih ⊢
      rw [xorWords_last, ih, word32_xor]
      rfl

theorem wordSum_xor (m m' : Nat → UInt8) (count : Nat) :
    wordSum (fun k => m k ^^^ m' k) count = wordSum m count ^^^ wordSum m' count := by
  induction count with
  | zero => exact UInt32.xor_zero.symm
  | succ count ih =>
      rw [wordSum] at ih ⊢
      rw [xorWords_last, ih, wordSum, wordSum, wordSum, wordSum, xorWords_last, xorWords_last,
        ← word32_xor]
      ac_rfl

theorem wordSum_congr {m m' : Nat → UInt8} {count : Nat} (h : ∀ k, k < 4 * count → m k = m' k) :
    wordSum m count = wordSum m' count := by
  apply xorWords_congr
  intro i _ hi
  rw [h (4 * i) (by omega), h (4 * i + 1) (by omega), h (4 * i + 2) (by omega),
    h (4 * i + 3) (by omega)]

theorem wordSum_append (mem : Nat → UInt8) (j k : Nat) :
    wordSum mem (j + k) = wordSum mem j ^^^ wordSum (fun i => mem (4 * j + i)) k := by
  rw [wordSum, xorWords_append, Nat.zero_add, ← Nat.add_zero j, ← xorWords_shift]
  simp only [wordSum, Nat.mul_add, Nat.add_assoc, Nat.add_zero]

theorem wordSum_zero (count : Nat) : wordSum (fun _ => 0) count = 0 := by
  induction count with
  | zero => rfl
  | succ count ih =>
      rw [wordSum] at ih ⊢
      rw [xorWords_last, ih]
      rfl

theorem laneSum_zero {mem : Nat → UInt8} {lane count : Nat}
    (h : ∀ i, i < count → mem (4 * i + lane) = 0) : laneSum mem lane count = 0 := by
  induction count with
  | zero => rfl
  | succ count ih =>
      rw [laneSum, ih fun i hi => h i (Nat.lt_succ_of_lt hi), h count (Nat.lt_succ_self count)]
      rfl

theorem laneSum_single {mem : Nat → UInt8} {lane count j : Nat} (hj : j < count)
    (h : ∀ i, i < count → i ≠ j → mem (4 * i + lane) = 0) :
    laneSum mem lane count = mem (4 * j + lane) := by
  induction count with
  | zero => cases hj
  | succ count ih =>
      rw [laneSum]
      by_cases he : j = count
      · subst he
        rw [laneSum_zero fun i hi => h i (Nat.lt_succ_of_lt hi) (Nat.ne_of_lt hi), UInt8.zero_xor]
      · have hrest := ih (by omega) fun i hi => h i (Nat.lt_succ_of_lt hi)
        rw [hrest, h count (Nat.lt_succ_self count) (Ne.symm he), UInt8.xor_zero]

theorem laneSum_eq_zero_of_wordSum {mem : Nat → UInt8} {count lane : Nat} (hlane : lane < 4)
    (h : wordSum mem count = 0) : laneSum mem lane count = 0 := by
  rw [wordSum_lanes] at h
  have hword : word32 [laneSum mem 0 count, laneSum mem 1 count, laneSum mem 2 count,
      laneSum mem 3 count] = word32 [0, 0, 0, 0] := h.trans rfl
  obtain ⟨h0, h1, h2, h3⟩ := word32_inj hword
  match lane, hlane with
  | 0, _ => exact h0
  | 1, _ => exact h1
  | 2, _ => exact h2
  | 3, _ => exact h3

/-- Four consecutive bytes lie in four different lanes, so a change in some of
them cannot cancel. -/
theorem wordSum_ne_of_window {m m' : Nat → UInt8} {start count k : Nat}
    (hout : ∀ k, k < start ∨ start + 4 ≤ k → m k = m' k) (hk : k < 4 * count) (hne : m k ≠ m' k) :
    wordSum m count ≠ wordSum m' count := by
  intro hsame
  have hzero : wordSum (fun k => m k ^^^ m' k) count = 0 := by
    rw [wordSum_xor, hsame, UInt32.xor_self]
  have hlane : laneSum (fun k => m k ^^^ m' k) (k % 4) count = 0 :=
    laneSum_eq_zero_of_wordSum (Nat.mod_lt k (by decide)) hzero
  have hinside : start ≤ k ∧ k < start + 4 := by
    by_contra hcon
    exact hne (hout k (by omega))
  have hdiv : 4 * (k / 4) + k % 4 = k := Nat.div_add_mod k 4
  rw [laneSum_single (j := k / 4) (by omega), hdiv] at hlane
  · exact hne (UInt8.xor_eq_zero_iff.mp hlane)
  · intro i _ hi
    rw [hout (4 * i + k % 4) (by omega), UInt8.xor_self]

def listSum (bs : List UInt8) : UInt32 := wordSum (fun k => bs.getD k 0) (bs.length / 4)

theorem listSum_append {as : List UInt8} (bs : List UInt8) (hwords : as.length % 4 = 0) :
    listSum (as ++ bs) = listSum as ^^^ listSum bs := by
  have hcount : (as ++ bs).length / 4 = as.length / 4 + bs.length / 4 := by
    rw [List.length_append]
    omega
  have hindex : 4 * (as.length / 4) = as.length := by omega
  have hfront : wordSum (fun k => (as ++ bs).getD k 0) (as.length / 4) = listSum as := by
    refine wordSum_congr fun k hk => ?_
    rw [List.getD_eq_getElem?_getD, List.getElem?_append_left (by omega), List.getD_eq_getElem?_getD]
  rw [listSum, hcount, wordSum_append, hfront, hindex, listSum, listSum]
  congr 2
  funext k
  rw [List.getD_eq_getElem?_getD, List.getElem?_append_right (Nat.le_add_right _ k),
    Nat.add_sub_cancel_left, List.getD_eq_getElem?_getD]

theorem listSum_bytes32 (w : UInt32) : listSum (bytes32 w) = w := by
  obtain ⟨a, b, c, d, hbytes⟩ : ∃ a b c d, bytes32 w = [a, b, c, d] := ⟨_, _, _, _, rfl⟩
  have hword : listSum [a, b, c, d] = word32 [a, b, c, d] := by
    simp [listSum, wordSum, xorWords]
  rw [hbytes, hword, ← hbytes, word32_bytes32]

theorem listSum_zeros (bs : List UInt8) (n count : Nat) (hle : bs.length + n ≤ 4 * count)
    (hwords : (bs.length + n) % 4 = 0) :
    listSum (bs ++ List.replicate n 0) = wordSum (fun k => bs.getD k 0) count := by
  have hsame (k : Nat) : (bs ++ List.replicate n 0).getD k 0 = bs.getD k 0 := by
    rw [List.getD_eq_getElem?_getD, List.getD_eq_getElem?_getD]
    by_cases hk : k < bs.length
    · rw [List.getElem?_append_left hk]
    · rw [List.getElem?_append_right (Nat.le_of_not_lt hk), List.getElem?_replicate,
        List.getElem?_eq_none (Nat.le_of_not_lt hk)]
      split_ifs <;> rfl
  have hzero (k : Nat) (hk : bs.length ≤ k) : bs.getD k 0 = 0 := by
    rw [List.getD_eq_getElem?_getD, List.getElem?_eq_none hk, Option.getD_none]
  obtain ⟨rest, rfl⟩ := Nat.exists_eq_add_of_le (show (bs.length + n) / 4 ≤ count by omega)
  rw [listSum, List.length_append, List.length_replicate, wordSum_append]
  have hrest : wordSum (fun k => bs.getD (4 * ((bs.length + n) / 4) + k) 0) rest = 0 := by
    rw [wordSum_congr fun k _ => hzero (4 * ((bs.length + n) / 4) + k) (by omega), wordSum_zero]
  rw [hrest, UInt32.xor_zero]
  exact wordSum_congr fun k _ => hsame k

/-- The lists differ, but only within four consecutive bytes. -/
def Burst (as bs : List UInt8) : Prop :=
  as ≠ bs ∧ ∃ start, as.take start = bs.take start ∧ as.drop (start + 4) = bs.drop (start + 4)

theorem getElem?_outside {as bs : List UInt8} {start k : Nat} (hfront : as.take start = bs.take start)
    (hback : as.drop (start + 4) = bs.drop (start + 4)) (hk : k < start ∨ start + 4 ≤ k) :
    as[k]? = bs[k]? := by
  cases hk with
  | inl hlt => rw [← List.getElem?_take_of_lt hlt, hfront, List.getElem?_take_of_lt hlt]
  | inr hle =>
      obtain ⟨j, rfl⟩ := Nat.exists_eq_add_of_le hle
      rw [← List.getElem?_drop, hback, List.getElem?_drop]

theorem listSum_ne_of_burst {as bs : List UInt8} (hlen : as.length = bs.length)
    (hwords : as.length % 4 = 0) (h : Burst as bs) : listSum as ≠ listSum bs := by
  obtain ⟨hne, start, hfront, hback⟩ := h
  obtain ⟨k, hk, hdiff⟩ : ∃ k, k < as.length ∧ as.getD k 0 ≠ bs.getD k 0 := by
    by_contra hcon
    push Not at hcon
    refine hne (List.ext_getElem hlen fun k hk hk' => ?_)
    have hsame := hcon k hk
    rw [List.getD_eq_getElem?_getD, List.getD_eq_getElem?_getD, List.getElem?_eq_getElem hk,
      List.getElem?_eq_getElem hk'] at hsame
    exact hsame
  have hout (k : Nat) (hk : k < start ∨ start + 4 ≤ k) : as.getD k 0 = bs.getD k 0 := by
    rw [List.getD_eq_getElem?_getD, getElem?_outside hfront hback hk, List.getD_eq_getElem?_getD]
  rw [listSum, listSum, ← hlen]
  exact wordSum_ne_of_window hout (by omega) hdiff

end HostComm.ByteLanes
