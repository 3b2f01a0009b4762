import Mathlib.Data.List.Forall2
import XboxTls.Analysis.Memory
import XboxTls.Interface.HandshakeMemory

/-!
# The handshake parsers stay within their bounds

Each parser answers as the one that works on byte strings does, and each span that it returns
holds the bytes that the other returns.  An answer is not a fault, and so the parsers read,
write and loop within their bounds (`handshakeParsers_safe`).
-/

set_option autoImplicit false

namespace XboxTls.Analysis

open Programs Programs.Guarded XboxTls.Model XboxTls.Interface

variable {m : Memory} {h s : ByteSpan} {b : Bytes}

/-! ## `handshake.cpp` -/

/-- The spans of a message hold its bytes. -/
structure MessageHolds (m : Memory) (h : ByteSpan) (r : HandshakeMessageSpans × ℕ)
    (r' : HandshakeMessage × ℕ) : Prop where
  type : r.1.type = r'.1.type
  body : Part m h r.1.body r'.1.body
  encoded : Part m h r.1.encoded r'.1.encoded
  consumed : r.2 = r'.2

/-- The parser of a message reads inside the input and agrees. -/
theorem parseHandshakeMessage_agrees (hs : Part m h s b) :
    Agrees (fun r r' => MessageHolds m h r r' ∧ r.2 ≤ s.size) (m.parseHandshakeMessage s)
      (parseHandshakeMessage b) := by
  have hsize := hs.size_eq
  have hwide := m.wide
  have hbody := loadBe24_le b 1
  have hnull : ¬ (s.data = none ∧ s.size ≠ 0) := fun hd => hd.2 (hs.size_of_null hd.1)
  unfold Memory.parseHandshakeMessage Model.parseHandshakeMessage
  dsimp only
  rw [refuseIf_neg _ hnull, pure_bind]
  refine agrees_refuseIf (by rw [hsize]) fun hshort => ?_
  rw [loadBe24_eq hs (by omega), pure_bind]
  refine agrees_refuseIf Iff.rfl fun _ => ?_
  rw [memory_plus_eq (by omega), pure_bind]
  refine agrees_refuseIf (by rw [hsize]) fun hfits => ?_
  rw [readAt_eq hs (by omega), pure_bind]
  have hencoded := hs.sub (i := 0) (n := loadBe24 b 1 + 4) (by omega)
  exact agrees_pure ⟨⟨rfl, hs.sub (by omega), hencoded, rfl⟩, by dsimp only; omega⟩

/-- The check of the type and the size of a body, which the model without memory makes too. -/
theorem refused_iff {type type' expected : UInt8} {body : Bytes} {n : ℕ} (htype : type = type')
    (hs : Part m h s body) (hn : 0 < n) :
    (type ≠ expected ∨ s.data = none ∨ s.size < n) ↔ (type' ≠ expected ∨ body.length < n) := by
  rw [htype, hs.size_eq]
  refine or_congr_right ⟨fun hdata => ?_, .inr⟩
  rcases hdata with hnull | hshort
  · rw [← hs.size_eq, hs.size_of_null hnull]
    exact hn
  · exact hshort

/-- The span of the ALPN name is as the model without memory has it. -/
def AlpnHolds (m : Memory) (h : ByteSpan) (r : EncryptedExtensionsSpans)
    (r' : EncryptedExtensionsInfo) : Prop :=
  Part m h r.alpn (r'.alpn.getD []) ∧ r.hasAlpn = r'.alpn.isSome

/-- What is left of the body from `p` on. -/
theorem parseEncryptedExtensionsLoop_agrees (hs : Part m h s b) (fuel p : ℕ)
    (out : EncryptedExtensionsSpans) (out' : EncryptedExtensionsInfo) (hp : p ≤ b.length)
    (hfuel : b.length - p ≤ fuel) (hout : AlpnHolds m h out out') :
    Agrees (AlpnHolds m h) (m.parseEncryptedExtensionsLoop s (fuel + 1) p (b.length - p) out)
      (parseEncryptedExtensionsLoop fuel (b.drop p) out') := by
  have hwide := m.wide
  induction fuel generalizing p out out' with
  | zero =>
    have hend : b.length - p = 0 := by omega
    unfold Memory.parseEncryptedExtensionsLoop
    rw [if_pos hend]
    exact agrees_pure hout
  | succ fuel ih =>
    unfold Memory.parseEncryptedExtensionsLoop Model.parseEncryptedExtensionsLoop
    dsimp only
    rw [List.length_drop]
    refine agrees_ite Iff.rfl (fun _ => agrees_pure hout) fun _ => ?_
    refine agrees_refuseIf Iff.rfl fun hheader => ?_
    rw [loadBe16_eq hs (by omega), pure_bind, loadBe16_eq hs (by omega), pure_bind,
      minus_eq (by omega), pure_bind, loadBe16_drop, loadBe16_drop, List.drop_drop,
      List.length_drop, Nat.add_zero]
    generalize loadBe16 b (p + 2) = len
    refine agrees_refuseIf (by omega) fun hfits => ?_
    have hnext : b.length - p - 4 - len = b.length - (p + 4 + len) := by omega
    -- The rest of the loop, with what the extension has made of `out`.
    have hrest : ∀ o o', AlpnHolds m h o o' →
        Agrees (AlpnHolds m h)
          (minus (b.length - p - 4) len >>= fun remain =>
            m.parseEncryptedExtensionsLoop s (fuel + 1) (p + 4 + len) remain o)
          (parseEncryptedExtensionsLoop fuel ((b.drop (p + 4)).drop len) o') := by
      intro o o' ho
      rw [minus_eq (by omega), pure_bind, hnext, List.drop_drop]
      exact ih (p + 4 + len) o o' (by omega) (by omega) ho
    unfold Memory.parseEncryptedExtension
    rw [ite_bind]
    refine agrees_ite Iff.rfl (fun _ => ?_) fun _ => hrest out out' hout
    simp only [bind_assoc]
    refine agrees_refuseIf Iff.rfl fun hthree => ?_
    have hlist := loadBe16_le b (p + 4)
    have hproto := (byteAt b (p + 4 + 2)).toNat_lt
    rw [loadBe16_eq hs (by omega), pure_bind, memory_plus_eq (by omega), pure_bind, loadBe16_drop,
      byteAt_drop]
    simp only [Nat.add_zero]
    refine agrees_refuseIf Iff.rfl fun hwhole => ?_
    rw [readAt_eq hs (by omega), pure_bind, memory_plus_eq (by omega), pure_bind]
    refine agrees_refuseIf Iff.rfl fun hname => ?_
    rw [pure_bind]
    refine hrest _ _ ⟨?_, rfl⟩
    have hslice : slice (b.drop (p + 4)) 3 (byteAt b (p + 4 + 2)).toNat =
        slice b (p + 4 + 3) (byteAt b (p + 4 + 2)).toNat := by
      unfold slice
      rw [List.drop_drop]
    rw [hslice]
    exact hs.sub (by omega)

/-- The parser of EncryptedExtensions reads inside the message and agrees. -/
theorem parseEncryptedExtensions_agrees {msg : HandshakeMessageSpans} {msg' : HandshakeMessage}
    (htype : msg.type = msg'.type) (hbody : Part m h msg.body msg'.body) :
    Agrees (AlpnHolds m h) (m.parseEncryptedExtensions msg) (parseEncryptedExtensions msg') := by
  have hsize := hbody.size_eq
  unfold Memory.parseEncryptedExtensions Model.parseEncryptedExtensions
  refine agrees_refuseIf (refused_iff htype hbody (by decide)) fun hok => ?_
  rw [loadBe16_eq hbody (by omega), pure_bind, minus_eq (by omega), pure_bind, hsize,
    ← List.length_drop]
  refine agrees_refuseIf Iff.rfl fun _ => ?_
  rw [List.length_drop]
  exact parseEncryptedExtensionsLoop_agrees hbody _ 2 _ _ (by omega) (Nat.le_refl _)
    ⟨Part.null hbody.root, rfl⟩

/-- The spans of a Certificate message hold its bytes. -/
structure CertificateHolds (m : Memory) (h : ByteSpan) (r : CertificateSpans)
    (r' : CertificateInfo) : Prop where
  requestContext : Part m h r.requestContext r'.requestContext
  certificateList : Part m h r.certificateList r'.certificateList

/-- The parser of a Certificate reads inside the message and agrees. -/
theorem parseCertificate_agrees {msg : HandshakeMessageSpans} {msg' : HandshakeMessage}
    (htype : msg.type = msg'.type) (hbody : Part m h msg.body msg'.body) :
    Agrees (CertificateHolds m h) (m.parseCertificate msg) (parseCertificate msg') := by
  have hsize := hbody.size_eq
  unfold Memory.parseCertificate Model.parseCertificate
  dsimp only
  refine agrees_refuseIf (refused_iff htype hbody (by decide)) fun hok => ?_
  rw [readAt_eq hbody (by omega), pure_bind, minus_eq (by omega), pure_bind, hsize,
    List.length_drop]
  refine agrees_refuseIf Iff.rfl fun hcontext => ?_
  rw [minus_eq (by omega), pure_bind, List.drop_drop, List.length_drop, ← Nat.sub_sub]
  refine agrees_refuseIf Iff.rfl fun hthree => ?_
  rw [loadBe24_eq hbody (by omega), pure_bind, minus_eq (by omega), pure_bind, loadBe24_drop,
    List.drop_drop, List.length_drop]
  simp only [Nat.add_zero]
  refine agrees_refuseIf (by omega) fun hlist => ?_
  refine agrees_pure ⟨hbody.sub (by omega), ?_⟩
  have hrest := hbody.sub (i := 1 + (byteAt msg'.body 0).toNat + 3)
    (n := loadBe24 msg'.body (1 + (byteAt msg'.body 0).toNat)) (by omega)
  rwa [slice, List.take_of_length_le (by rw [List.length_drop]; omega), Nat.add_assoc] at hrest

/-- The span of a CertificateVerify message holds its signature. -/
structure CertificateVerifyHolds (m : Memory) (h : ByteSpan) (r : CertificateVerifySpans)
    (r' : CertificateVerifyInfo) : Prop where
  algorithm : r.algorithm = r'.algorithm
  signature : Part m h r.signature r'.signature

/-- The parser of a CertificateVerify reads inside the message and agrees. -/
theorem parseCertificateVerify_agrees {msg : HandshakeMessageSpans} {msg' : HandshakeMessage}
    (htype : msg.type = msg'.type) (hbody : Part m h msg.body msg'.body) :
    Agrees (CertificateVerifyHolds m h) (m.parseCertificateVerify msg)
      (parseCertificateVerify msg') := by
  have hsize := hbody.size_eq
  have hwide := m.wide
  have hlen := loadBe16_le msg'.body 2
  unfold Memory.parseCertificateVerify Model.parseCertificateVerify
  dsimp only
  refine agrees_refuseIf (refused_iff htype hbody (by decide)) fun hok => ?_
  rw [loadBe16_eq hbody (by omega), pure_bind, loadBe16_eq hbody (by omega), pure_bind,
    memory_plus_eq (by omega), pure_bind]
  refine agrees_refuseIf (by rw [hsize]) fun hsig => ?_
  exact agrees_pure ⟨rfl, hbody.sub (by omega)⟩

/-! ## `authentication.cpp` -/

/-- The spans of an entry hold its bytes. -/
def EntryHolds (m : Memory) (h : ByteSpan) (e : CertificateChainEntrySpans)
    (e' : CertificateChainEntry) : Prop :=
  Part m h e.der e'.der ∧ Part m h e.extensions e'.extensions

/-- The entries in use hold the bytes of the chain, and no entry leaves the message. -/
structure ChainHolds (m : Memory) (h : ByteSpan) (r : CertificateChainArray)
    (r' : CertificateChainView) : Prop where
  count : r.count = r'.entries.length
  inUse : List.Forall₂ (EntryHolds m h) (r.entries.val.take r.count) r'.entries
  all : ∀ e ∈ r.entries.val, e.der.Within h ∧ e.extensions.Within h

/-- One entry more. -/
theorem ChainHolds.push {r : CertificateChainArray} {r' : CertificateChainView}
    (hr : ChainHolds m h r r') {e : CertificateChainEntrySpans} {e' : CertificateChainEntry}
    (he : EntryHolds m h e e') {entries : { l : List CertificateChainEntrySpans // l.length = 8 }}
    (htake : entries.val.take (r.count + 1) = r.entries.val.take r.count ++ [e])
    (hmem : ∀ y ∈ entries.val, y ∈ r.entries.val ∨ y = e) (hbound) :
    ChainHolds m h ⟨entries, r.count + 1⟩ ⟨r'.entries ++ [e'], hbound⟩ := by
  refine ⟨?_, ?_, fun y hy => ?_⟩
  · simp [hr.count]
  · show List.Forall₂ _ (entries.val.take (r.count + 1)) _
    rw [htake]
    exact List.rel_append hr.inUse (.cons he .nil)
  · rcases hmem y hy with hold | rfl
    · exact hr.all y hold
    · exact ⟨he.1.within, he.2.within⟩

/-- The loop over the entries reads inside the list, fills at most sixteen of them and agrees. -/
theorem parseCertificateChainLoop_agrees (hs : Part m h s b) (fuel p : ℕ)
    (out : CertificateChainArray) (out' : CertificateChainView) (hp : p ≤ b.length)
    (hfuel : b.length - p ≤ fuel) (hout : ChainHolds m h out out') :
    Agrees (ChainHolds m h) (m.parseCertificateChainLoop s (fuel + 1) p out)
      (parseCertificateChainLoop fuel (b.drop p) out') := by
  have hsize := hs.size_eq
  have hlimit := hs.length_lt
  induction fuel generalizing p out out' with
  | zero =>
    unfold Memory.parseCertificateChainLoop
    rw [if_neg (by omega)]
    exact agrees_pure hout
  | succ fuel ih =>
    unfold Memory.parseCertificateChainLoop Model.parseCertificateChainLoop
    dsimp only
    have hleft := List.length_drop (i := p) (l := b)
    rw [hsize]
    by_cases hend : (b.drop p).length = 0
    · rw [if_neg (by omega), if_pos hend]
      exact agrees_pure hout
    rw [if_pos (by omega), if_neg hend, minus_eq hp, pure_bind, ← hleft]
    by_cases hfull : out'.entries.length ≥ 8 ∨ (b.drop p).length < 3
    · rw [refuseIf_pos _ (by rwa [hout.count]), refuse_bind, dif_pos hfull]
      exact agrees_refuse _
    rw [refuseIf_neg _ (by rwa [hout.count]), pure_bind, dif_neg hfull,
      loadBe24_eq hs (by omega), pure_bind, memory_plus_eq (by omega), pure_bind,
      minus_eq (by omega), pure_bind]
    simp only [loadBe24_drop, loadBe16_drop, List.drop_drop, List.length_drop, Nat.add_zero]
    refine agrees_refuseIf Iff.rfl fun hcert => ?_
    rw [memory_plus_eq (by omega), pure_bind, minus_eq (by omega), pure_bind]
    refine agrees_refuseIf Iff.rfl fun htwo => ?_
    rw [loadBe16_eq hs (by omega), pure_bind, memory_plus_eq (by omega), pure_bind,
      minus_eq (by omega), pure_bind]
    refine agrees_refuseIf Iff.rfl fun hext => ?_
    have hcount : out.count < 8 := by
      have hlen := hout.count
      omega
    obtain ⟨entries, hstore, htake, hmem⟩ := store_eq (ε := Error) out.entries
      ⟨s.sub (p + 3) _, s.sub (p + 3 + _ + 2) _⟩ hcount
    rw [hstore, pure_bind, memory_plus_eq (by omega), pure_bind]
    refine ih _ _ _ (by omega) (by omega) (hout.push ⟨?_, ?_⟩ htake hmem _)
    · exact hs.sub (by omega)
    · exact hs.sub (by omega)

/-- The parser of the certificate list reads inside the list and agrees. -/
theorem parseCertificateChain_agrees {info : CertificateSpans} {info' : CertificateInfo}
    (hlist : Part m h info.certificateList info'.certificateList) :
    Agrees (ChainHolds m h) (m.parseCertificateChain info) (parseCertificateChain info') := by
  have hempty : ChainHolds m h .empty .empty := by
    refine ⟨rfl, .nil, fun e he => ?_⟩
    rw [List.eq_of_mem_replicate he]
    exact ⟨within_null h, within_null h⟩
  have hloop := parseCertificateChainLoop_agrees hlist info'.certificateList.length 0 _ _
    (Nat.zero_le _) (by omega) hempty
  unfold Memory.parseCertificateChain Model.parseCertificateChain
  dsimp only
  rw [hlist.size_eq]
  refine agrees_bind hloop fun r r' hr => ?_
  rw [ite_not]
  exact agrees_refuseIf (by rw [hr.count]) fun _ => agrees_pure hr

/-! ## `server_hello.cpp` -/

/-- The arrays hold the bytes that the model without memory has. -/
structure HelloHolds (r : ServerHelloArrays) (r' : ServerHelloInfo) : Prop where
  random : r.random.val = r'.random
  sessionId : r.sessionId.val.take r.sessionIdLength = r'.sessionId
  sessionIdLength : r.sessionIdLength ≤ 32
  cipherSuite : r.cipherSuite = r'.cipherSuite
  selectedVersion : r.selectedVersion = r'.selectedVersion
  group : r.group = r'.group
  keyShare : r.keyShare.val.take r.keyShareLength = r'.keyShare
  keyShareLength : r.keyShareLength ≤ 65
  helloRetryRequest : r.helloRetryRequest = r'.helloRetryRequest
  cookie : r.cookie.val.take r.cookieLength = r'.cookie
  cookieLength : r.cookieLength ≤ 512

/-- The same for the locals of the loop. -/
structure ScanHolds (r : ServerHelloArraysScan) (r' : ServerHelloScan) : Prop where
  version : r.version = r'.version
  keyshare : r.keyshare = r'.keyshare
  out : HelloHolds r.out r'.out

/-- Copying `n` bytes of a message into an array that has room for them. -/
theorem copied_eq (hs : Part m h s b) (hnull : s.data ≠ none) {n k i : ℕ} (dest : FixedBytes n)
    (hin : i + k ≤ b.length) (hk : k ≤ n) : ∃ d : FixedBytes n,
      (m.readBytes s i k >>= fun bytes => copyTo (ε := Error) dest bytes) = pure d ∧
        d.val.take k = slice b i k := by
  have hlen : (slice b i k).length = k := slice_length hin
  have hroom : (slice b i k).length ≤ n := by rwa [hlen]
  obtain ⟨d, hcopy, htake⟩ := copyTo_eq (ε := Error) dest hroom
  rw [hlen] at htake
  refine ⟨d, ?_, htake⟩
  rw [readBytes_eq hs hnull hin, pure_bind]
  exact hcopy

/-- An extension of a ServerHello is read inside the hello, and what is copied fits its array. -/
theorem parseServerHelloExtension_agrees (hs : Part m h s b) (hnull : s.data ≠ none)
    {p type len : ℕ} (hin : p + len ≤ b.length) {st : ServerHelloArraysScan} {st' : ServerHelloScan}
    (hst : ScanHolds st st') :
    Agrees ScanHolds (m.parseServerHelloExtension s p type len st)
      (scanServerHelloExtension b p type len st') := by
  have hwide := m.wide
  have hout := hst.out
  unfold Memory.parseServerHelloExtension scanServerHelloExtension
  dsimp only
  refine agrees_ite Iff.rfl (fun _ => ?_) fun _ => agrees_ite Iff.rfl (fun _ => ?_) fun _ =>
    agrees_ite Iff.rfl (fun _ => ?_) fun _ => agrees_pure hst
  · refine agrees_refuseIf Iff.rfl fun htwo => ?_
    rw [loadBe16_eq hs (by omega), pure_bind]
    exact agrees_pure ⟨rfl, hst.keyshare, { hout with selectedVersion := rfl }⟩
  · refine agrees_ite (by rw [hout.helloRetryRequest]) (fun _ => ?_) fun _ => ?_
    · refine agrees_refuseIf Iff.rfl fun htwo => ?_
      rw [loadBe16_eq hs (by omega), pure_bind]
      exact agrees_pure ⟨hst.version, rfl,
        { hout with group := rfl, keyShare := rfl, keyShareLength := Nat.zero_le 65 }⟩
    · have hkl := loadBe16_le b (p + 2)
      refine agrees_refuseIf Iff.rfl fun hfour => ?_
      rw [loadBe16_eq hs (by omega), pure_bind, loadBe16_eq hs (by omega), pure_bind,
        memory_plus_eq (by omega), pure_bind]
      refine agrees_refuseIf Iff.rfl fun hfits => ?_
      obtain ⟨share, hcopy, htake⟩ := copied_eq hs hnull st.out.keyShare
        (i := p + 4) (k := loadBe16 b (p + 2)) (by omega) (by omega)
      rw [← bind_assoc, hcopy, pure_bind]
      exact agrees_pure ⟨hst.version, rfl,
        { hout with group := rfl, keyShare := htake, keyShareLength := by dsimp only; omega }⟩
  · have hcl := loadBe16_le b p
    refine agrees_refuseIf (by rw [hout.helloRetryRequest]) fun htwo => ?_
    rw [loadBe16_eq hs (by omega), pure_bind, memory_plus_eq (by omega), pure_bind]
    refine agrees_refuseIf Iff.rfl fun hfits => ?_
    by_cases hzero : loadBe16 b p = 0
    · rw [if_neg (not_not.2 hzero), hzero]
      exact agrees_pure ⟨hst.version, hst.keyshare,
        { hout with cookie := rfl, cookieLength := Nat.zero_le 512 }⟩
    · obtain ⟨cookie, hcopy, htake⟩ := copied_eq hs hnull st.out.cookie
        (i := p + 2) (k := loadBe16 b p) (by omega) (by omega)
      rw [if_pos hzero, ← bind_assoc, hcopy, pure_bind]
      exact agrees_pure ⟨hst.version, hst.keyshare,
        { hout with cookie := htake, cookieLength := by dsimp only; omega }⟩

/-- The end of the extensions is the end of the message. -/
theorem parseServerHelloExtensions_agrees (hs : Part m h s b) (hnull : s.data ≠ none)
    (hshort : b.length + 65540 < m.limit) (fuel p : ℕ) (st : ServerHelloArraysScan)
    (st' : ServerHelloScan) (hp : p ≤ b.length) (hfuel : b.length - p ≤ fuel)
    (hst : ScanHolds st st') :
    Agrees ScanHolds (m.parseServerHelloExtensions s b.length (fuel + 1) p st)
      (scanServerHelloExtensions b fuel p st') := by
  induction fuel generalizing p st st' with
  | zero =>
    unfold Memory.parseServerHelloExtensions
    rw [if_neg (by omega)]
    exact agrees_pure hst
  | succ fuel ih =>
    unfold Memory.parseServerHelloExtensions scanServerHelloExtensions
    dsimp only
    rw [← ite_not]
    refine agrees_ite (by omega) (fun _ => agrees_pure hst) fun hlt => ?_
    have hlen := loadBe16_le b (p + 2)
    rw [memory_plus_eq (by omega), pure_bind]
    refine agrees_refuseIf Iff.rfl fun hheader => ?_
    rw [loadBe16_eq hs (by omega), pure_bind, loadBe16_eq hs (by omega), pure_bind,
      memory_plus_eq (by omega), pure_bind]
    refine agrees_refuseIf Iff.rfl fun hfits => ?_
    exact agrees_bind (parseServerHelloExtension_agrees hs hnull (by omega) hst)
      fun st₁ st₁' hst₁ => ih _ st₁ st₁' (by omega) (by omega) hst₁

/-- The checks behind the extensions read the fields only. -/
theorem checkServerHello_agrees {st : ServerHelloArraysScan} {st' : ServerHelloScan}
    (hst : ScanHolds st st') :
    Agrees HelloHolds (Memory.checkServerHello st) (checkServerHello st') := by
  have hout := hst.out
  have harray := st.out.keyShare.property
  have hlength : st'.out.keyShare.length = st.out.keyShareLength := by
    have hle := hout.keyShareLength
    rw [← hout.keyShare, List.length_take]
    omega
  unfold Memory.checkServerHello Model.checkServerHello
  dsimp only
  rw [hlength, ← hst.version, ← hst.keyshare, ← hout.selectedVersion, ← hout.cipherSuite,
    ← hout.helloRetryRequest, ← hout.group]
  refine agrees_refuseIf Iff.rfl fun _ => agrees_refuseIf Iff.rfl fun _ => ?_
  refine agrees_ite Iff.rfl (fun _ => agrees_refuseIf Iff.rfl fun _ => agrees_pure hout)
    fun _ => ?_
  rw [getAt_eq (by omega), pure_bind]
  refine agrees_ite Iff.rfl (fun _ => agrees_pure hout) fun _ => ?_
  refine agrees_ite ?_ (fun _ => agrees_pure hout) fun _ => agrees_refuse _
  refine and_congr_right fun _ => and_congr_right fun hfull => ?_
  rw [← hout.keyShare, byteAt_take (by omega), byteAt_eq_getElem (by omega)]

/-- A session id of at most 32 bytes fits its array. -/
theorem copySessionId_eq (hs : Part m h s b) (hnull : s.data ≠ none) {p sid : ℕ}
    (hin : p + sid ≤ b.length) (hsid : sid ≤ 32) (out : ServerHelloArrays) :
    ∃ sessionId : FixedBytes 32,
      m.copySessionId s p sid out =
        pure { out with sessionIdLength := sid, sessionId := sessionId } ∧
      sessionId.val.take sid = slice b p sid := by
  unfold Memory.copySessionId
  by_cases hzero : sid = 0
  · subst hzero
    exact ⟨out.sessionId, by rw [if_neg (by simp)], rfl⟩
  · obtain ⟨sessionId, hcopy, htake⟩ := copied_eq hs hnull out.sessionId hin hsid
    refine ⟨sessionId, ?_, htake⟩
    rw [if_pos hzero, ← bind_assoc, hcopy, pure_bind]

/-- The parser of a ServerHello reads inside the hello and agrees. -/
theorem parseServerHello_agrees (hs : Part m h s b) (hnull : s.data ≠ none) :
    Agrees HelloHolds (m.parseServerHello s) (parseServerHello b) := by
  have hsize := hs.size_eq
  have hlimit := hs.length_lt
  have hwide := m.wide
  unfold Memory.parseServerHello Model.parseServerHello
  dsimp only
  rw [refuseIf_neg _ hnull, pure_bind, hsize, ite_or]
  refine agrees_refuseIf Iff.rfl fun hshort => ?_
  rw [readAt_eq hs (by omega), pure_bind]
  refine agrees_refuseIf Iff.rfl fun _ => ?_
  have hbody := loadBe24_le b 1
  rw [loadBe24_eq hs (by omega), pure_bind, plus_eq (by omega), pure_bind]
  refine agrees_refuseIf Iff.rfl fun hwhole => ?_
  rw [loadBe16_eq hs (by omega), pure_bind]
  refine agrees_refuseIf Iff.rfl fun _ => ?_
  obtain ⟨random, hcopy, htake⟩ := copied_eq hs hnull ServerHelloArrays.empty.random
    (i := 4 + 2) (k := 32) (by omega) (Nat.le_refl 32)
  rw [memory_plus_eq (by omega), pure_bind, ← bind_assoc, hcopy, pure_bind,
    memory_plus_eq (by omega), pure_bind]
  refine agrees_refuseIf Iff.rfl fun hmore => ?_
  rw [readAt_eq hs (by omega), pure_bind, memory_plus_eq (by omega), pure_bind, ite_or]
  have hsid := (byteAt b 38).toNat_lt
  simp only [Nat.reduceAdd]
  refine agrees_refuseIf Iff.rfl fun hsid => ?_
  rw [memory_plus_eq (by omega), pure_bind, memory_plus_eq (by omega), pure_bind]
  refine agrees_refuseIf Iff.rfl fun hfixed => ?_
  have hin : 39 + (byteAt b 38).toNat ≤ b.length := by omega
  obtain ⟨sessionId, hsession, hcopied⟩ := copySessionId_eq hs hnull hin (by omega)
    { ServerHelloArrays.empty with
      random := random, helloRetryRequest := random.val = hrrRandom }
  have hext := loadBe16_le b (39 + (byteAt b 38).toNat + 2 + 1)
  rw [hsession, pure_bind, loadBe16_eq hs (by omega), pure_bind, memory_plus_eq (by omega),
    pure_bind, readAt_eq hs (by omega), pure_bind, memory_plus_eq (by omega), pure_bind]
  refine agrees_refuseIf Iff.rfl fun _ => ?_
  rw [loadBe16_eq hs (by omega), pure_bind, memory_plus_eq (by omega), pure_bind,
    memory_plus_eq (by omega), pure_bind]
  simp only [Nat.add_assoc, Nat.reduceAdd] at hext ⊢
  refine agrees_refuseIf Iff.rfl fun hend => ?_
  rw [not_not] at hend
  rw [hend]
  have hrandom : random.val = slice b 6 32 := by
    rwa [List.take_of_length_le (Nat.le_of_eq random.property)] at htake
  refine agrees_bind (parseServerHelloExtensions_agrees hs hnull (by omega) _ _ _ _ (by omega)
    (by omega) ⟨rfl, rfl, ?_⟩) fun st st' hst => checkServerHello_agrees hst
  exact {
    random := hrandom
    sessionId := hcopied
    sessionIdLength := by dsimp only; omega
    cipherSuite := rfl
    selectedVersion := rfl
    group := rfl
    keyShare := rfl
    keyShareLength := Nat.zero_le 65
    helloRetryRequest := by simp only [hrandom]
    cookie := rfl
    cookieLength := Nat.zero_le 512 }

/-! ## All parsers -/

/-- What a ServerHello leaves in the fixed arrays fits them, also for a null input. -/
theorem parseServerHello_safe (hs : s.Inside m) :
    Safe (fun r => r.sessionIdLength ≤ 32 ∧ r.keyShareLength ≤ 65 ∧ r.cookieLength ≤ 512)
      (m.parseServerHello s) := by
  by_cases hnull : s.data = none
  · refine ⟨.error .invalidArgument, ?_, fun r hr => by cases hr⟩
    unfold Memory.parseServerHello
    rw [refuseIf_pos _ hnull, refuse_bind]
    rfl
  · exact (parseServerHello_agrees (.self hs) hnull).safe fun r r' hr =>
      ⟨hr.sessionIdLength, hr.keyShareLength, hr.cookieLength⟩

/-- **The handshake parsers are memory-safe**, on every span of every memory. -/
theorem handshakeParsers_safe (m : Memory) (s : m.Span) : HandshakeParsersSafe m s.val := by
  have hself := Part.self s.property
  have hbody : ∀ type encoded, Part m s.val (⟨type, s.val, encoded⟩ : HandshakeMessageSpans).body
      (⟨type, s.val.bytes m, []⟩ : HandshakeMessage).body := fun _ _ => hself
  constructor
  case message =>
    exact (parseHandshakeMessage_agrees hself).safe fun r r' hr =>
      ⟨hr.1.body.within, hr.1.encoded.within, hr.2⟩
  case serverHello => exact parseServerHello_safe s.property
  case encryptedExtensions =>
    intro type encoded
    exact (parseEncryptedExtensions_agrees rfl (hbody type encoded)).safe fun r r' hr =>
      hr.1.within
  case certificate =>
    intro type encoded
    exact (parseCertificate_agrees rfl (hbody type encoded)).safe fun r r' hr =>
      ⟨hr.requestContext.within, hr.certificateList.within⟩
  case certificateVerify =>
    intro type encoded
    exact (parseCertificateVerify_agrees rfl (hbody type encoded)).safe fun r r' hr =>
      hr.signature.within
  case certificateChain =>
    intro context
    have hlist : Part m s.val (⟨context, s.val⟩ : CertificateSpans).certificateList
        (⟨[], s.val.bytes m⟩ : CertificateInfo).certificateList := hself
    refine (parseCertificateChain_agrees hlist).safe fun r r' hr => ⟨?_, hr.all⟩
    rw [hr.count]
    exact r'.bound

end XboxTls.Analysis
