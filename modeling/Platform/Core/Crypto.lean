import Platform.Lib.Bincode

/-!
# Keys, hashes and signatures (`crates/core/src/crypto.rs`, `types.rs`)

`sr25519` (`sp_core`) and SHA-256 (`sha2`) are third-party code.  They enter as the parameter
`Crypto`; nothing is assumed about it here.  What a result needs (signatures are not forged, the
data of a run do not collide) is a hypothesis of that result.

Signing is randomised in `sp_core`, so `Crypto.sign` takes the randomness it draws.  A keypair is
its public half: the secret half is known to `Crypto.sign` only.
-/

namespace Platform.Core

abbrev Bytes := List UInt8

/-- `[u8; 32]` -/
structure Bytes32 where
  bytes : Bytes
  len : bytes.length = 32
deriving DecidableEq

theorem Bytes32.bytes_inj {a b : Bytes32} (h : a.bytes = b.bytes) : a = b := by
  cases a
  cases b
  subst h
  rfl

structure Hotkey where
  key : Bytes32
deriving DecidableEq

def Hotkey.ofByte (b : UInt8) : Hotkey := ⟨⟨b :: List.replicate 31 0, rfl⟩⟩

def hexDigit (n : Nat) : Char := Char.ofNat (if n < 10 then 48 + n else 87 + n)

/-- `hex::encode` -/
def hexEncode (bs : Bytes) : String :=
  String.ofList (bs.flatMap fun b => [hexDigit (b.toNat / 16), hexDigit (b.toNat % 16)])

theorem hexDigit_inj : ∀ n < 16, ∀ m < 16, hexDigit n = hexDigit m → n = m := by decide

theorem hexEncode_inj {a b : Bytes} (h : hexEncode a = hexEncode b) : a = b := by
  have hch := String.ofList_injective h
  clear h
  induction a generalizing b with
  | nil =>
    cases b with
    | nil => rfl
    | cons y b => cases hch
  | cons x a ih =>
    cases b with
    | nil => cases hch
    | cons y b =>
      obtain ⟨hh, hr⟩ := List.cons.inj hch
      obtain ⟨hlw, htl⟩ := List.cons.inj hr
      have hx := x.toNat_lt
      have hy := y.toNat_lt
      have h1 := hexDigit_inj _ (by omega) _ (by omega) hh
      have h2 := hexDigit_inj _ (by omega) _ (by omega) hlw
      rw [show x = y from UInt8.toNat_inj.mp (by omega), ih htl]

def Hotkey.toHex (h : Hotkey) : String := hexEncode h.key.bytes

def Hotkey.debug (h : Hotkey) : String := "Hotkey(" ++ hexEncode (h.key.bytes.take 4) ++ "...)"

def Hotkey.display (h : Hotkey) : String :=
  hexEncode (h.key.bytes.take 4) ++ "..." ++ hexEncode (h.key.bytes.drop 28)

structure Keypair where
  hotkey : Hotkey
deriving DecidableEq

/-- The third-party primitives: SHA-256, `sr25519::Pair::sign` (with the randomness it draws) and
`sr25519::Pair::verify`. -/
structure Crypto where
  sha256 : Bytes → Bytes32
  sign : Keypair → Nat → Bytes → Bytes
  verify : Bytes → Bytes → Hotkey → Bool

/-- SHA-256 tells the given data apart. -/
def Crypto.Separates (C : Crypto) (xs : List Bytes) : Prop :=
  ∀ x ∈ xs, ∀ y ∈ xs, C.sha256 x = C.sha256 y → x = y

instance (C : Crypto) (xs : List Bytes) : Decidable (C.Separates xs) :=
  inferInstanceAs (Decidable (∀ x ∈ xs, ∀ y ∈ xs, C.sha256 x = C.sha256 y → x = y))

theorem Crypto.Separates.mono {C : Crypto} {xs ys : List Bytes} (h : C.Separates ys)
    (hsb : xs ⊆ ys) : C.Separates xs := fun x hx y hy => h x (hsb hx) y (hsb hy)

inductive MiniChainError where
  | crypto (msg : String)
  | serialization (msg : String)
  | consensus (msg : String)
deriving DecidableEq

def MiniChainError.display : MiniChainError → String
  | .crypto msg => "Cryptographic error: " ++ msg
  | .serialization msg => "Serialization error: " ++ msg
  | .consensus msg => "Consensus error: " ++ msg

structure SignedMessage where
  message : Bytes
  signature : Bytes
  signer : Hotkey

def SignedMessage.verify (C : Crypto) (m : SignedMessage) : Except MiniChainError Bool :=
  if m.signature.length ≠ 64 then
    .error (.crypto "Invalid signature length (expected 64 bytes)")
  else .ok (C.verify m.signature m.message m.signer)

theorem SignedMessage.verify_ok_iff (C : Crypto) (m : SignedMessage) (b : Bool) :
    m.verify C = .ok b ↔ m.signature.length = 64 ∧ C.verify m.signature m.message m.signer = b := by
  unfold SignedMessage.verify
  by_cases h : m.signature.length = 64
  · simp [h]
  · simp [h]

def Keypair.signBytes (C : Crypto) (kp : Keypair) (rng : Nat) (data : Bytes) : Bytes :=
  C.sign kp rng data

/-! ## a concrete scheme -/

def padTo (n : Nat) (bs : Bytes) : Bytes := (bs ++ List.replicate n 0).take n

theorem length_padTo (n : Nat) (bs : Bytes) : (padTo n bs).length = n := by
  simp [padTo]

/-- A transparent instance for runs on concrete inputs: the "hash" is the data, the "signature"
names the signer, the randomness and the message.  It separates keys by their first eight bytes
and messages by their first 55, which is all that such runs use. -/
def sampleCrypto : Crypto where
  sha256 data := ⟨padTo 32 data, length_padTo 32 data⟩
  sign kp rng m := padTo 64 (kp.hotkey.key.bytes.take 8 ++ UInt8.ofNat rng :: m)
  verify sig m k := decide (sig = padTo 64 (k.key.bytes.take 8 ++ sig.getD 8 0 :: m))

end Platform.Core
