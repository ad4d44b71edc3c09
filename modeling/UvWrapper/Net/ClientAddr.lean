/-
  UvWrapper.Net.ClientAddr — tcp_server_get_client_addr, character by character: a name that is
  bounded by `len`, and a sprintf of dst onto itself that is not.

  uv_ip4_name and uv_ip6_name write the name and a NUL where they fit, and nothing else; the text
  of an IPv6 address is a parameter (`Ip6Name`). `written` begins empty.

  Proved: what is written stays in dst[0..len-1], dst ends in it, and the text is there whenever it
  fits, if and only if the peer is not known, or what the name call leaves fits with the port
  behind it (`respects_iff`). A name that just fits is overrun by the port (`overrun`). The two
  callers, with 127 characters, are safe (`callers_respect`).
-/

import UvWrapper.Net.Address

namespace UvWrapper.Net.ClientAddr

open UvWrapper.Lib.Memory
open UvWrapper.Net.Address (Sockaddr)

/-- What uv_ip6_name writes; INET6_ADDRSTRLEN is 46. -/
structure Ip6Name where
  text : Vector UInt8 16 → List Char
  plain : ∀ a, nul ∉ text a
  short : ∀ a, (text a).length ≤ 45

def decimal (n : Nat) : List Char := Nat.toDigits 10 n

def ip4Name (a : Vector UInt8 4) : List Char :=
  decimal a[0].toNat ++ '.' :: decimal a[1].toNat ++ '.' :: decimal a[2].toNat ++ '.' :: decimal a[3].toNat

/-- `uv_ip4_name`, `uv_ip6_name`: their results are not looked at. -/
def putName (name : List Char) (dst len : Nat) (m : Mem Char) : Mem Char :=
  if name.length + 1 ≤ len then m.store dst (name ++ [nul]) else m

/-- `sprintf(dst, "%s:%d", dst, port)`, on a string of less than `len` characters. -/
def sprintfPort (dst len port : Nat) (m : Mem Char) : Mem Char :=
  m.store dst (str nul m dst len ++ ':' :: decimal port ++ [nul])

variable (names : Ip6Name)

/-- `peer`: what uv_tcp_getpeername finds, if it succeeds. -/
def tcpServerGetClientAddr (peer : Option Sockaddr) (dst len : Nat) (m : Mem Char) : Mem Char :=
  match peer with
  | none => m
  | some (.in4 port addr) => sprintfPort dst len port.toNat (putName (ip4Name addr) dst len m)
  | some (.in6 port addr _) => sprintfPort dst len port.toNat (putName (names.text addr) dst len m)

def name : Sockaddr → List Char
  | .in4 _ addr => ip4Name addr
  | .in6 _ addr _ => names.text addr

def port : Sockaddr → List Char
  | .in4 port _ | .in6 port _ _ => decimal port.toNat

def text (a : Sockaddr) : List Char := name names a ++ ':' :: port a

def kept (len : Nat) (old : List Char) (a : Sockaddr) : List Char :=
  if (name names a).length + 1 ≤ len then name names a else old

/-- With `cells` in memory. -/
structure Respects (peer : Option Sockaddr) (dst len : Nat) (cells : Nat → Char) : Prop where
  inside : ∀ i ∈ (tcpServerGetClientAddr names peer dst len ⟨cells, []⟩).written, dst ≤ i ∧ i < dst + len
  ends : ∃ s, s.length < len ∧ Str nul (tcpServerGetClientAddr names peer dst len ⟨cells, []⟩) dst s
  exact : ∀ a, peer = some a → (text names a).length < len →
    Str nul (tcpServerGetClientAddr names peer dst len ⟨cells, []⟩) dst (text names a)

/-! ## Texts -/

theorem decimal_plain (n : Nat) : nul ∉ decimal n := fun h => by
  have := Nat.isDigit_of_mem_toDigits (by decide) (by decide) h
  cases this

theorem decimal_length {n k : Nat} (hk : 0 < k) (hn : n < 10 ^ k) : (decimal n).length ≤ k :=
  (Nat.length_toDigits_le_iff (by decide) hk).mpr hn

theorem nul_ne_dot : nul ≠ '.' := by decide

theorem nul_ne_colon : nul ≠ ':' := by decide

theorem ip4Name_plain (a : Vector UInt8 4) : nul ∉ ip4Name a := by
  simp [ip4Name, decimal_plain, nul_ne_dot]

theorem ip4Name_length (a : Vector UInt8 4) : (ip4Name a).length ≤ 15 := by
  have hd : ∀ b : UInt8, (decimal b.toNat).length ≤ 3 := fun b =>
    decimal_length (by decide) (Nat.lt_of_lt_of_le b.toNat_lt (by decide))
  have h0 := hd a[0]
  have h1 := hd a[1]
  have h2 := hd a[2]
  have h3 := hd a[3]
  simp only [ip4Name, List.length_append, List.length_cons]
  omega

variable {names} {peer : Option Sockaddr} {dst len : Nat} {cells : Nat → Char} {old : List Char}

theorem name_plain (a : Sockaddr) : nul ∉ name names a := by
  cases a with
  | in4 p addr => exact ip4Name_plain addr
  | in6 p addr scope => exact names.plain addr

theorem name_length (names : Ip6Name) (a : Sockaddr) : (name names a).length ≤ 45 := by
  cases a with
  | in4 p addr => exact Nat.le_trans (ip4Name_length addr) (by decide)
  | in6 p addr scope => exact names.short addr

theorem port_plain (a : Sockaddr) : nul ∉ port a := by
  cases a <;> exact decimal_plain _

theorem port_length (a : Sockaddr) : (port a).length ≤ 5 := by
  have hp : ∀ p : UInt16, (decimal p.toNat).length ≤ 5 := fun p =>
    decimal_length (by decide) (Nat.lt_of_lt_of_le p.toNat_lt (by decide))
  cases a <;> exact hp _

/-! ## The two writes -/

/-- Both families do the same with their own texts. -/
theorem getClientAddr_some (a : Sockaddr) (m : Mem Char) : tcpServerGetClientAddr names (some a) dst len m =
    (putName (name names a) dst len m).store dst
      (str nul (putName (name names a) dst len m) dst len ++ ':' :: port a ++ [nul]) := by
  cases a <;> rfl

/-- The string is the old one, or the name. -/
theorem putName_kept (names : Ip6Name) (h : Str nul ⟨cells, []⟩ dst old) (hl : old.length < len) (a : Sockaddr) :
    Str nul (putName (name names a) dst len ⟨cells, []⟩) dst (kept names len old a) ∧
      (kept names len old a).length < len := by
  unfold putName kept
  split
  · exact ⟨str_store _ _ (name_plain a), by omega⟩
  · exact ⟨h, hl⟩

theorem getClientAddr_eq (h : Str nul ⟨cells, []⟩ dst old) (hl : old.length < len) (a : Sockaddr) :
    tcpServerGetClientAddr names (some a) dst len ⟨cells, []⟩ =
      (putName (name names a) dst len ⟨cells, []⟩).store dst (kept names len old a ++ ':' :: port a ++ [nul]) := by
  obtain ⟨hs, hk⟩ := putName_kept names h hl a
  rw [getClientAddr_some, str_eq hs hk]

theorem putName_written (a : Sockaddr) {i : Nat} (hi : i ∈ (putName (name names a) dst len ⟨cells, []⟩).written) :
    dst ≤ i ∧ i < dst + len := by
  unfold putName at hi
  split at hi
  · rw [mem_written, List.length_append, List.length_singleton] at hi
    rcases hi with hi | hi
    · cases hi
    · omega
  · cases hi

theorem kept_plain (h : nul ∉ old) (a : Sockaddr) : nul ∉ kept names len old a := by
  unfold kept
  split
  · exact name_plain a
  · exact h

/-- Where the text fits, the name does. -/
theorem kept_name {a : Sockaddr} (h : (text names a).length < len) : kept names len old a = name names a := by
  refine if_pos ?_
  rw [text, List.length_append] at h
  omega

/-! ## What is respected -/

theorem respects_of_fits (h : Str nul ⟨cells, []⟩ dst old) (hl : old.length < len)
    (hf : ∀ a, peer = some a → (kept names len old a).length + 1 + (port a).length + 1 ≤ len) :
    Respects names peer dst len cells := by
  cases peer with
  | none => exact ⟨fun i hi => (by cases hi), ⟨old, hl, h⟩, fun a ha => (by cases ha)⟩
  | some a =>
    have hf := hf a rfl
    have hlen : (kept names len old a ++ ':' :: port a).length < len := by
      rw [List.length_append, List.length_cons]
      omega
    have hplain : nul ∉ kept names len old a ++ ':' :: port a := by
      simp [kept_plain h.plain, port_plain, nul_ne_colon]
    have hstr : Str nul (tcpServerGetClientAddr names (some a) dst len ⟨cells, []⟩) dst
        (kept names len old a ++ ':' :: port a) := by
      rw [getClientAddr_eq h hl a]
      exact str_store _ _ hplain
    refine ⟨fun i hi => ?_, ⟨_, hlen, hstr⟩, fun b hb ht => ?_⟩
    · rw [getClientAddr_eq h hl a, mem_written] at hi
      rcases hi with hi | hi
      · exact putName_written a hi
      · rw [List.length_append, List.length_singleton] at hi
        omega
    · cases hb
      rw [kept_name ht] at hstr
      exact hstr

theorem respects_iff (h : Str nul ⟨cells, []⟩ dst old) (hl : old.length < len) : Respects names peer dst len cells ↔
    ∀ a, peer = some a → (kept names len old a).length + 1 + (port a).length + 1 ≤ len := by
  constructor
  · intro hr a ha
    subst ha
    -- the last cell that sprintf writes
    have hin := hr.inside (dst + ((kept names len old a).length + (port a).length + 1))
    rw [getClientAddr_eq h hl a, mem_written] at hin
    have := hin (.inr (by simp; omega))
    omega
  · exact respects_of_fits h hl

/-- tcp_server_conn_close and tcp_server_print_all_conn: 128 zeros, of which 127 are given. -/
theorem callers_respect (names : Ip6Name) (peer : Option Sockaddr) (dst : Nat) :
    Respects names peer dst 127 (fun _ => nul) := by
  have hold : Str nul ⟨fun _ => nul, []⟩ dst [] := ⟨by simp, rfl⟩
  refine respects_of_fits hold (by decide) fun a _ => ?_
  have hn := name_length names a
  have hp := port_length a
  rw [kept, if_pos (by omega)]
  omega

/-! ## Two calls -/

def anyName : Ip6Name := ⟨fun _ => [':', ':'], fun _ => by decide, fun _ => by decide⟩

def peerAddr : Sockaddr := .in4 8080 #v[127, 0, 0, 1]

theorem fits : Respects anyName (some peerAddr) 0 15 (fun _ => nul) :=
  (respects_iff (show Str nul ⟨fun _ => nul, []⟩ 0 [] from ⟨by simp, rfl⟩) (by decide)).mpr fun a ha => by
    cases ha
    decide

/-- "127.0.0.1" and its NUL are ten characters, "127.0.0.1:8080" and its NUL fifteen. -/
theorem overrun : Str nul ⟨fun _ => nul, []⟩ 0 [] ∧
    14 ∈ (tcpServerGetClientAddr anyName (some peerAddr) 0 10 ⟨fun _ => nul, []⟩).written ∧
    ¬ Respects anyName (some peerAddr) 0 10 (fun _ => nul) := by
  have hw : 14 ∈ (tcpServerGetClientAddr anyName (some peerAddr) 0 10 ⟨fun _ => nul, []⟩).written := by decide
  exact ⟨⟨by simp, rfl⟩, hw, fun h => absurd (h.inside 14 hw).2 (by decide)⟩

end UvWrapper.Net.ClientAddr
