import Confide.Base64
import Confide.Directory

/-! Password hashes as they stand in the configuration: `pbkdf2-sha256$iterations$salt$key`. -/
namespace Confide

open Bytes

deriving instance DecidableEq for PasswordHash

namespace PasswordHash

def scheme : Bytes := ascii "pbkdf2-sha256"

def maxIterations : Nat := 10000000

def checkIterations (iterations : Nat) : Result Unit :=
  if iterations < 1 ∨ maxIterations < iterations then
    fail .validation (ascii "iterations must be 1.." ++ decimal maxIterations)
  else .ok ()

def parse (text : Bytes) : Result PasswordHash :=
  let malformed := fail .validation (ascii "expected " ++ scheme ++ ascii "$<iterations>$<salt>$<key>")
  match text.splitOn 36 with
  | [name,number,salt,key] =>
    if name ≠ scheme then malformed
    else match fromChars (2^32 - 1) number with
      | some (iterations,[]) => do
        checkIterations iterations
        let salt ← base64Decode salt
        let key ← base64Decode key
        if salt = [] ∨ key = [] then fail .validation (ascii "empty salt or key") else .ok ⟨iterations,salt,key⟩
      | _ => fail .validation (ascii "iterations is not a number")
  | _ => malformed

def toString (hash : PasswordHash) : Bytes :=
  scheme ++ 36 :: (decimal hash.iterations ++ 36 :: (base64Encode hash.salt ++ 36 :: base64Encode hash.key))

structure Storable (hash : PasswordHash) : Prop where
  positive : 1 ≤ hash.iterations
  bounded : hash.iterations ≤ maxIterations
  salt : hash.salt ≠ []
  key : hash.key ≠ []

theorem checkIterations_ok {iterations : Nat} :
    checkIterations iterations = .ok () ↔ 1 ≤ iterations ∧ iterations ≤ maxIterations := by
  unfold checkIterations
  split
  · exact iff_of_false nofun (by omega)
  · exact iff_of_true rfl (by omega)

/-- No dollar sign is in a base64 text, as it is decoded. -/
theorem base64Encode_whole (b : Bytes) : 36 ∉ base64Encode b := by
  have decoded := Base64.decode_encode b
  unfold base64Decode at decoded
  split at decoded
  · contradiction
  · rename_i whole
    obtain ⟨body,pad,_,text,digits⟩ := (Base64.readGroups_ok _ (not_not.mp whole)).mp ⟨b,decoded⟩
    rw [text]
    intro dollar
    rcases List.mem_append.mp dollar with dollar | dollar
    · exact absurd (digits 36 dollar) (by decide)
    · exact absurd (List.eq_of_mem_replicate dollar) (by decide)

theorem decimal_whole (n : Nat) : 36 ∉ decimal n := by
  intro dollar
  have digit := decimal_digits n 36 dollar
  contradiction

theorem toString_splitOn (hash : PasswordHash) : hash.toString.splitOn 36 =
    [scheme,decimal hash.iterations,base64Encode hash.salt,base64Encode hash.key] := by
  have joined : hash.toString =
      [36].intercalate [scheme,decimal hash.iterations,base64Encode hash.salt,base64Encode hash.key] := by
    simp [toString,List.intercalate]
  rw [joined]
  apply List.splitOn_intercalate 36 _ (by simp)
  intro part member
  simp only [List.mem_cons,List.not_mem_nil,or_false] at member
  rcases member with rfl | rfl | rfl | rfl
  · decide
  · exact decimal_whole _
  · exact base64Encode_whole _
  · exact base64Encode_whole _

theorem parse_toString {hash : PasswordHash} (storable : hash.Storable) : parse hash.toString = .ok hash := by
  have small : hash.iterations ≤ 2^32 - 1 := storable.bounded.trans (by decide)
  have checked := checkIterations_ok.mpr ⟨storable.positive,storable.bounded⟩
  have full : ¬ (hash.salt = [] ∨ hash.key = []) := not_or.mpr ⟨storable.salt,storable.key⟩
  simp only [parse,toString_splitOn,fromChars_decimal small,checked,Base64.decode_encode,ok_bind,if_neg full]
  exact if_neg (not_not.mpr rfl)

/-- Whatever text a hash is read from, it can be stored again. -/
theorem parse_storable {text : Bytes} {hash : PasswordHash} (read : parse text = .ok hash) : hash.Storable := by
  unfold parse at read
  dsimp only at read
  split at read
  · split at read
    · contradiction
    split at read
    · obtain ⟨_,checked,read⟩ := bind_eq_ok.mp read
      obtain ⟨salt,_,read⟩ := bind_eq_ok.mp read
      obtain ⟨key,_,read⟩ := bind_eq_ok.mp read
      obtain ⟨positive,bounded⟩ := checkIterations_ok.mp checked
      split at read
      · contradiction
      · rename_i full
        cases read
        exact ⟨positive,bounded,fun empty => full (.inl empty),fun empty => full (.inr empty)⟩
    · contradiction
  · contradiction

end PasswordHash

/-- A stored hash is read back as it is, and every hash that was read is stored without a change: it takes the
same passwords as before. -/
theorem stored_hashes_reload : (∀ hash : PasswordHash, 1 ≤ hash.iterations →
      hash.iterations ≤ PasswordHash.maxIterations → hash.salt ≠ [] → hash.key ≠ [] →
      PasswordHash.parse hash.toString = .ok hash) ∧
    ∀ text hash, PasswordHash.parse text = .ok hash → PasswordHash.parse hash.toString = .ok hash ∧
      ∀ again, PasswordHash.parse hash.toString = .ok again → ∀ pbkdf2 password,
        again.verify pbkdf2 password = hash.verify pbkdf2 password := by
  constructor
  · intro hash positive bounded salt key
    exact PasswordHash.parse_toString ⟨positive,bounded,salt,key⟩
  · intro text hash read
    have same := PasswordHash.parse_toString (PasswordHash.parse_storable read)
    apply And.intro same
    intro again reread pbkdf2 password
    rw [same] at reread
    rw [Except.ok.inj reread]

theorem stored_hash_reloads : PasswordHash.parse (ascii "pbkdf2-sha256$01000$c2FsdA==$a2V5") =
      .ok ⟨1000,ascii "salt",ascii "key"⟩ ∧
    PasswordHash.parse (PasswordHash.toString ⟨1000,ascii "salt",ascii "key"⟩) =
      .ok ⟨1000,ascii "salt",ascii "key"⟩ := by
  have read : PasswordHash.parse (ascii "pbkdf2-sha256$01000$c2FsdA==$a2V5") =
      .ok ⟨1000,ascii "salt",ascii "key"⟩ := by decide +kernel
  exact ⟨read,(stored_hashes_reload.2 _ _ read).1⟩

end Confide
