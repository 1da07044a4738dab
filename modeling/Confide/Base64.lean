import Confide.Common

/-! Base64 texts: three bytes are four digits, and a last group of one or two bytes is filled up with signs. -/
namespace Confide

open Bytes

namespace Base64

def alphabet : Bytes := ascii "ABCDEFGHIJKLMNOPQRSTUVWXYZabcdefghijklmnopqrstuvwxyz0123456789+/"

/-- The 6-bit value of a digit. -/
def digit (c : UInt8) : Option Nat :=
  if 65 ≤ c ∧ c ≤ 90 then some (c.toNat - 65)
  else if 97 ≤ c ∧ c ≤ 122 then some (c.toNat - 97 + 26)
  else if 48 ≤ c ∧ c ≤ 57 then some (c.toNat - 48 + 52)
  else if c = 43 then some 62
  else if c = 47 then some 63
  else none

def letter (n : Nat) : UInt8 := alphabet[n]?.getD 0

/-- The text of `n` bytes, at most three; the bytes that are missing count as zeros. -/
def writeGroup (n : Nat) (a b c : UInt8) : Bytes :=
  let group := ((a.toNat <<< 8) ||| b.toNat) <<< 8 ||| c.toNat
  (List.range 4).map fun k => if k ≤ n then letter ((group >>> (18 - 6 * k)) &&& 0x3F) else 61

/-- One character of a group: the padding so far, and the bits. -/
def readChar (last : Bool) (k : Nat) (c : UInt8) (pad group : Nat) : Result (Nat × Nat) :=
  if c = 61 then
    if !last ∨ k < 2 then fail .validation (ascii "base64: misplaced padding") else .ok (pad + 1,group <<< 6)
  else match digit c with
    | none => fail .validation (ascii "base64: invalid character")
    | some d =>
      if 0 < pad then fail .validation (ascii "base64: invalid character") else .ok (pad,(group <<< 6) ||| d)

def readGroup (last : Bool) (a b c d : UInt8) : Result (Nat × Nat) := do
  let (pad,group) ← readChar last 0 a 0 0
  let (pad,group) ← readChar last 1 b pad group
  let (pad,group) ← readChar last 2 c pad group
  readChar last 3 d pad group

def groupBytes (pad group : Nat) : Bytes :=
  (List.range (3 - pad)).map fun k => UInt8.ofNat ((group >>> (16 - 8 * k)) &&& 0xFF)

def readGroups : Bytes → Result Bytes
  | a :: b :: c :: d :: rest => do
    let (pad,group) ← readGroup rest.isEmpty a b c d
    let out ← readGroups rest
    return groupBytes pad group ++ out
  | _ => .ok []

end Base64

def base64Encode : Bytes → Bytes
  | [] => []
  | [a] => Base64.writeGroup 1 a 0 0
  | [a,b] => Base64.writeGroup 2 a b 0
  | a :: b :: c :: rest => Base64.writeGroup 3 a b c ++ base64Encode rest

def base64Decode (text : Bytes) : Result Bytes :=
  if text.length % 4 ≠ 0 then fail .validation (ascii "base64: length is not a multiple of 4") else Base64.readGroups text

namespace Base64

theorem digit_letter {n : Nat} (small : n < 64) : digit (letter n) = some n ∧ letter n ≠ 61 := by
  revert n
  decide +kernel

theorem letter_digit {c : UInt8} {d : Nat} (read : digit c = some d) : d < 64 ∧ letter d = c := by
  have all : ∀ c : UInt8, (digit c).all (fun d => d < 64 ∧ letter d = c) = true := forall_byte (by decide +kernel)
  have found := all c
  rw [read] at found
  exact of_decide_eq_true found

/-- The alphabet has the digits. -/
theorem mem_alphabet (c : UInt8) : c ∈ alphabet ↔ digit c ≠ none := by
  constructor
  · intro member none
    obtain ⟨n,small,rfl⟩ := List.getElem_of_mem member
    have read := (digit_letter (n := n) small).1
    rw [letter,List.getElem?_eq_getElem small,Option.getD_some,none] at read
    cases read
  · intro read
    obtain ⟨d,read⟩ := Option.ne_none_iff_exists'.mp read
    obtain ⟨small,rfl⟩ := letter_digit read
    have inside : d < alphabet.length := small
    rw [letter,List.getElem?_eq_getElem inside,Option.getD_some]
    exact List.getElem_mem inside

theorem shift_or {n d : Nat} (width : Nat) (small : d < 2 ^ width) : (n <<< width) ||| d = n * 2 ^ width + d := by
  rw [← Nat.shiftLeft_add_eq_or_of_lt small,Nat.shiftLeft_eq]

/-- Three bytes as one number. -/
def bits (a b c : UInt8) : Nat := (a.toNat * 256 + b.toNat) * 256 + c.toNat

theorem writeGroup_eq (n : Nat) (a b c : UInt8) : writeGroup n a b c =
    [letter (bits a b c / 262144 % 64),if 1 ≤ n then letter (bits a b c / 4096 % 64) else 61,
      if 2 ≤ n then letter (bits a b c / 64 % 64) else 61,if 3 ≤ n then letter (bits a b c % 64) else 61] := by
  have group : ((a.toNat <<< 8) ||| b.toNat) <<< 8 ||| c.toNat = bits a b c := by
    rw [shift_or 8 b.toNat_lt,shift_or 8 c.toNat_lt]
    rfl
  have six : ∀ m, m &&& 0x3F = m % 64 := fun m => Nat.and_two_pow_sub_one_eq_mod m 6
  simp [writeGroup,group,six,List.range_succ,Nat.shiftRight_eq_div_pow]

theorem readChar_letter (last : Bool) (k group : Nat) {n : Nat} (small : n < 64) :
    readChar last k (letter n) 0 group = .ok (0,group * 64 + n) := by
  obtain ⟨read,other⟩ := digit_letter small
  simp [readChar,other,read,shift_or 6 small]

theorem readChar_pad {k : Nat} (late : 2 ≤ k) (pad group : Nat) : readChar true k 61 pad group = .ok (pad + 1,group * 64) := by
  have place : ¬ k < 2 := by omega
  simp [readChar,place,Nat.shiftLeft_eq]

theorem groupBytes_bits (pad : Nat) (a b c : UInt8) : groupBytes pad (bits a b c) = [a,b,c].take (3 - pad) := by
  have eight : ∀ m, m &&& 0xFF = m % 256 := fun m => Nat.and_two_pow_sub_one_eq_mod m 8
  have ha := a.toNat_lt
  have hb := b.toNat_lt
  have hc := c.toNat_lt
  have first : bits a b c / 65536 % 256 = a.toNat := by
    unfold bits
    omega
  have second : bits a b c / 256 % 256 = b.toNat := by
    unfold bits
    omega
  have third : bits a b c % 256 = c.toNat := by
    unfold bits
    omega
  have all : (List.range 3).map (fun k => UInt8.ofNat ((bits a b c >>> (16 - 8 * k)) &&& 0xFF)) = [a,b,c] := by
    simp [eight,List.range_succ,Nat.shiftRight_eq_div_pow,first,second,third]
  rw [groupBytes,← all,← List.map_take,List.take_range,Nat.min_eq_left (Nat.sub_le 3 pad)]

section Group

variable {k l m n : Nat} (hk : k < 64) (hl : l < 64) (hm : m < 64) (hn : n < 64)

include hk hl

theorem readGroup_one : readGroup true (letter k) (letter l) 61 61 = .ok (2,(k * 64 + l) * 64 * 64) := by
  simp [readGroup,readChar_letter,hk,hl,readChar_pad]

include hm

theorem readGroup_two : readGroup true (letter k) (letter l) (letter m) 61 = .ok (1,((k * 64 + l) * 64 + m) * 64) := by
  simp [readGroup,readChar_letter,hk,hl,hm,readChar_pad]

include hn

theorem readGroup_three (last : Bool) :
    readGroup last (letter k) (letter l) (letter m) (letter n) = .ok (0,((k * 64 + l) * 64 + m) * 64 + n) := by
  simp [readGroup,readChar_letter,hk,hl,hm,hn]

end Group

theorem mod_small (n : Nat) : n % 64 < 64 := Nat.mod_lt n (by decide)

theorem readGroups_one (a : UInt8) : readGroups (writeGroup 1 a 0 0) = .ok [a] := by
  have ha := a.toNat_lt
  have group : (bits a 0 0 / 262144 % 64 * 64 + bits a 0 0 / 4096 % 64) * 64 * 64 = bits a 0 0 := by
    unfold bits
    simp only [UInt8.toNat_zero]
    omega
  simp [writeGroup_eq,readGroups,readGroup_one (mod_small _) (mod_small _),group,groupBytes_bits]

theorem readGroups_two (a b : UInt8) : readGroups (writeGroup 2 a b 0) = .ok [a,b] := by
  have ha := a.toNat_lt
  have hb := b.toNat_lt
  have group : ((bits a b 0 / 262144 % 64 * 64 + bits a b 0 / 4096 % 64) * 64 + bits a b 0 / 64 % 64) * 64 = bits a b 0 := by
    unfold bits
    simp only [UInt8.toNat_zero]
    omega
  simp [writeGroup_eq,readGroups,readGroup_two (mod_small _) (mod_small _) (mod_small _),group,groupBytes_bits]

theorem readGroups_three (a b c : UInt8) {rest out : Bytes} (read : readGroups rest = .ok out) :
    readGroups (writeGroup 3 a b c ++ rest) = .ok (a :: b :: c :: out) := by
  have ha := a.toNat_lt
  have hb := b.toNat_lt
  have hc := c.toNat_lt
  have group : ((bits a b c / 262144 % 64 * 64 + bits a b c / 4096 % 64) * 64 + bits a b c / 64 % 64) * 64 +
      bits a b c % 64 = bits a b c := by
    unfold bits
    omega
  simp [writeGroup_eq,readGroups,readGroup_three (mod_small _) (mod_small _) (mod_small _) (mod_small _),group,
    groupBytes_bits,read]

theorem writeGroup_length (n : Nat) (a b c : UInt8) : (writeGroup n a b c).length = 4 := by simp [writeGroup]

theorem encode_length (b : Bytes) : (base64Encode b).length % 4 = 0 := by
  fun_induction base64Encode b with
  | case1 => rfl
  | case2 a => rw [writeGroup_length]
  | case3 a b => rw [writeGroup_length]
  | case4 a b c rest ih =>
    rw [List.length_append,writeGroup_length]
    omega

theorem readGroups_encode (b : Bytes) : readGroups (base64Encode b) = .ok b := by
  fun_induction base64Encode b with
  | case1 => rfl
  | case2 a => exact readGroups_one a
  | case3 a b => exact readGroups_two a b
  | case4 a b c rest ih => exact readGroups_three a b c ih

theorem decode_encode (b : Bytes) : base64Decode (base64Encode b) = .ok b := by
  rw [base64Decode,if_neg (not_not.mpr (encode_length b)),readGroups_encode]

theorem readChar_eq_ok {last : Bool} {k pad group : Nat} {c : UInt8} {next : Nat × Nat} :
    readChar last k c pad group = .ok next ↔ (c = 61 ∧ last = true ∧ 2 ≤ k ∧ next = (pad + 1,group <<< 6)) ∨
      ∃ d, digit c = some d ∧ pad = 0 ∧ next = (0,(group <<< 6) ||| d) := by
  unfold readChar
  by_cases sign : c = 61
  · subst sign
    have none : digit 61 = none := by decide
    rw [if_pos rfl]
    by_cases place : last = true ∧ 2 ≤ k
    · rw [if_neg (by simp [place.1]; omega)]
      simp [none,place,eq_comm]
    · rw [if_pos (by simp only [Bool.not_eq_true',not_and,not_le] at place ⊢; cases last <;> simp_all)]
      simp only [fail,reduceCtorEq,none,false_and,exists_false,or_false,false_iff]
      exact fun there => place ⟨there.2.1,there.2.2.1⟩
  · rw [if_neg sign]
    simp only [sign,false_and,false_or]
    cases digit c with
    | none => simp [fail]
    | some d =>
      rcases Nat.eq_zero_or_pos pad with rfl | padded
      · simp [eq_comm]
      · have late : ¬ pad = 0 := by omega
        simp [padded,late,fail]

theorem readGroup_ok (last : Bool) (a b c d : UInt8) : (∃ out, readGroup last a b c d = .ok out) ↔
    a ∈ alphabet ∧ b ∈ alphabet ∧ (c ∈ alphabet ∧ (d ∈ alphabet ∨ last = true ∧ d = 61) ∨ last = true ∧ c = 61 ∧ d = 61) := by
  simp only [readGroup,bind_eq_ok,readChar_eq_ok,mem_alphabet,Option.ne_none_iff_exists']
  constructor
  · rintro ⟨out,_,⟨_,_,late,_⟩ | ⟨k,ha,_,rfl⟩,_,⟨_,_,late,_⟩ | ⟨l,hb,_,rfl⟩,_,third,fourth⟩
    · contradiction
    · contradiction
    · contradiction
    · refine ⟨⟨k,ha⟩,⟨l,hb⟩,?_⟩
      rcases third with ⟨rfl,isLast,_,rfl⟩ | ⟨m,hc,_,rfl⟩
      · rcases fourth with ⟨rfl,_⟩ | ⟨_,_,full,_⟩
        · exact .inr ⟨isLast,rfl,rfl⟩
        · contradiction
      · refine .inl ⟨⟨m,hc⟩,?_⟩
        rcases fourth with ⟨rfl,isLast,_⟩ | ⟨n,hd,_⟩
        · exact .inr ⟨isLast,rfl⟩
        · exact .inl ⟨n,hd⟩
  · rintro ⟨⟨k,ha⟩,⟨l,hb⟩,⟨⟨m,hc⟩,⟨n,hd⟩ | ⟨isLast,rfl⟩⟩ | ⟨isLast,rfl,rfl⟩⟩
    · exact ⟨_,_,.inr ⟨k,ha,trivial,rfl⟩,_,.inr ⟨l,hb,rfl,rfl⟩,_,.inr ⟨m,hc,rfl,rfl⟩,.inr ⟨n,hd,rfl,rfl⟩⟩
    · exact ⟨_,_,.inr ⟨k,ha,trivial,rfl⟩,_,.inr ⟨l,hb,rfl,rfl⟩,_,.inr ⟨m,hc,rfl,rfl⟩,.inl ⟨rfl,isLast,by decide,rfl⟩⟩
    · exact ⟨_,_,.inr ⟨k,ha,trivial,rfl⟩,_,.inr ⟨l,hb,rfl,rfl⟩,_,.inl ⟨rfl,isLast,by decide,rfl⟩,
        .inl ⟨rfl,isLast,by decide,rfl⟩⟩

/-- A text of digits with padding behind them. -/
def Padded (text : Bytes) : Prop := ∃ body pad, pad ≤ 2 ∧ text = body ++ List.replicate pad 61 ∧ ∀ c ∈ body, c ∈ alphabet

theorem padded_last (a b c d : UInt8) : Padded [a,b,c,d] ↔ ∃ out, readGroup true a b c d = .ok out := by
  rw [readGroup_ok]
  constructor
  · rintro ⟨body,pad,most,text,letters⟩
    rcases (by omega : pad = 0 ∨ pad = 1 ∨ pad = 2) with rfl | rfl | rfl
    · obtain rfl : body = [a,b,c,d] := by simpa using text.symm
      simp only [List.forall_mem_cons] at letters
      exact ⟨letters.1,letters.2.1,.inl ⟨letters.2.2.1,.inl letters.2.2.2.1⟩⟩
    · obtain ⟨rfl,sign⟩ := List.append_inj' (show [a,b,c] ++ [d] = body ++ [61] from text) rfl
      simp only [List.forall_mem_cons] at letters
      exact ⟨letters.1,letters.2.1,.inl ⟨letters.2.2.1,.inr ⟨rfl,List.singleton_inj.mp sign⟩⟩⟩
    · obtain ⟨rfl,signs⟩ := List.append_inj' (show [a,b] ++ [c,d] = body ++ [61,61] from text) rfl
      simp only [List.forall_mem_cons] at letters
      simp only [List.cons.injEq,and_true] at signs
      exact ⟨letters.1,letters.2.1,.inr ⟨rfl,signs⟩⟩
  · rintro ⟨ha,hb,⟨hc,hd | ⟨_,rfl⟩⟩ | ⟨_,rfl,rfl⟩⟩
    · exact ⟨[a,b,c,d],0,by decide,rfl,by simp [ha,hb,hc,hd]⟩
    · exact ⟨[a,b,c],1,by decide,rfl,by simp [ha,hb,hc]⟩
    · exact ⟨[a,b],2,by decide,rfl,by simp [ha,hb]⟩

theorem padded_more (a b c d : UInt8) {rest : Bytes} (more : 4 ≤ rest.length) :
    Padded (a :: b :: c :: d :: rest) ↔ (∃ out, readGroup false a b c d = .ok out) ∧ Padded rest := by
  have group : (∃ out, readGroup false a b c d = .ok out) ↔ ∀ x ∈ [a,b,c,d], x ∈ alphabet := by
    rw [readGroup_ok]
    simp
  rw [group]
  constructor
  · rintro ⟨body,pad,most,text,letters⟩
    have length := congrArg List.length text
    simp only [List.length_cons,List.length_append,List.length_replicate] at length
    obtain ⟨first,later,rfl,four⟩ : ∃ first later, body = first ++ later ∧ first.length = 4 :=
      ⟨body.take 4,body.drop 4,(List.take_append_drop 4 body).symm,by rw [List.length_take]; omega⟩
    obtain ⟨rfl,rfl⟩ := List.append_inj (show [a,b,c,d] ++ rest = first ++ (later ++ List.replicate pad 61) by
      rw [← List.append_assoc,← text]; rfl) four.symm
    exact ⟨fun x member => letters x (List.mem_append_left _ member),
      later,pad,most,rfl,fun x member => letters x (List.mem_append_right _ member)⟩
  · rintro ⟨first,body,pad,most,rfl,letters⟩
    exact ⟨[a,b,c,d] ++ body,pad,most,rfl,fun x member => (List.mem_append.mp member).elim (first x) (letters x)⟩

theorem readGroups_ok (text : Bytes) (whole : text.length % 4 = 0) : (∃ out, readGroups text = .ok out) ↔ Padded text := by
  fun_induction readGroups text with
  | case1 a b c d rest ih =>
    have later : rest.length % 4 = 0 := by
      simp only [List.length_cons] at whole
      omega
    have both : (∃ out, (do
        let (pad,group) ← readGroup rest.isEmpty a b c d
        let out ← readGroups rest
        return groupBytes pad group ++ out : Result Bytes) = .ok out) ↔
        (∃ out, readGroup rest.isEmpty a b c d = .ok out) ∧ ∃ out, readGroups rest = .ok out := by
      simp only [bind_eq_ok]
      constructor
      · rintro ⟨_,group,first,out,second,_⟩
        exact ⟨⟨group,first⟩,out,second⟩
      · rintro ⟨⟨group,first⟩,out,second⟩
        exact ⟨_,group,first,out,second,rfl⟩
    rw [both,ih later]
    cases rest with
    | nil =>
      rw [padded_last]
      exact and_iff_left ⟨[],0,by decide,rfl,nofun⟩
    | cons e rest =>
      rw [padded_more a b c d (by simp only [List.length_cons] at later ⊢; omega)]
      rfl
  | case2 text short =>
    cases text with
    | nil => exact iff_of_true ⟨[],rfl⟩ ⟨[],0,by decide,rfl,nofun⟩
    | cons a text =>
      rcases text with _ | ⟨b,_ | ⟨c,_ | ⟨d,rest⟩⟩⟩
      · contradiction
      · contradiction
      · contradiction
      · exact absurd rfl (short a b c d rest)

end Base64

/-- Decoding undoes encoding, and takes exactly the texts of whole groups with padding at the end. -/
theorem base64_exact : (∀ b, base64Decode (base64Encode b) = .ok b) ∧
    ∀ text, (∃ b, base64Decode text = .ok b) ↔ text.length % 4 = 0 ∧ ∃ body pad, pad ≤ 2 ∧
      text = body ++ List.replicate pad 61 ∧ ∀ c ∈ body, c ∈ Base64.alphabet := by
  refine ⟨Base64.decode_encode,fun text => ?_⟩
  unfold base64Decode
  by_cases whole : text.length % 4 = 0
  · rw [if_neg (not_not.mpr whole),Base64.readGroups_ok text whole]
    exact (and_iff_right whole).symm
  · rw [if_pos whole]
    exact iff_of_false nofun fun there => whole there.1

end Confide
