import Mathlib.Data.List.Nodup
import XboxTls.Analysis.ServerHelloParsing
import XboxTls.Interface.RepeatedExtensions

/-!
# The last copy of an extension wins

Neither parser looks for a type that it has seen.  So a block with a type twice is accepted
whenever each copy is well formed and the last copies are right, and what is reported is what
the last copies say.  Without a repetition the order does not matter.
-/

set_option autoImplicit false

namespace XboxTls.Analysis

open Programs XboxTls.Model XboxTls.Interface RawExtension RawExtensions

/-! ## EncryptedExtensions -/

/-- What an extension does to what the loop reports. -/
def appliedAlpn (info : EncryptedExtensionsInfo) (e : RawExtension) : EncryptedExtensionsInfo :=
  if e.type = 0x0010 then ⟨some (e.body.drop 3)⟩ else info

/-- The checks on the data of an ALPN extension. -/
theorem alpnBody_iff (body : Bytes) (hbound : body.length < 65536) :
    (∃ name, 0 < name.length ∧ name.length ≤ 255 ∧ body = alpnBody name) ↔
      3 ≤ body.length ∧ loadBe16 body 0 + 2 = body.length ∧ 1 ≤ loadBe16 body 0 ∧
        0 < (byteAt body 2).toNat ∧ (byteAt body 2).toNat + 1 = loadBe16 body 0 := by
  constructor
  · rintro ⟨name, hpos, hle, rfl⟩
    have hload : loadBe16 (alpnBody name) 0 = name.length + 1 := by
      rw [alpnBody, List.append_assoc]
      exact loadBe16_storeBe16 _ (by omega) _
    have hbyte : (byteAt (alpnBody name) 2).toNat = name.length := by
      show (UInt8.ofNat name.length).toNat = _
      rw [UInt8.toNat_ofNat']
      omega
    have hlength : (alpnBody name).length = name.length + 3 := by
      simp only [alpnBody, List.length_append, storeBe16_length, List.length_singleton]
      omega
    rw [hload, hbyte, hlength]
    omega
  · rintro ⟨hlong, hlist, -, hpos, hname⟩
    have hlt := (byteAt body 2).toNat_lt
    have hdrop : (body.drop 3).length = (byteAt body 2).toNat := by
      rw [List.length_drop]
      omega
    refine ⟨body.drop 3, by omega, by omega, ?_⟩
    have hfront : body.take 3 = storeBe16 (loadBe16 body 0) ++ [byteAt body 2] := by
      rw [← slice_two (by omega), ← slice_one (by omega), slice_append_slice]
      simp [slice]
    unfold alpnBody
    rw [hdrop, UInt8.ofNat_toNat, hname, ← hfront, List.take_append_drop]

/-- The loop takes extensions exactly if the ALPN extensions name one protocol each. -/
theorem parseEncryptedExtensionsLoop_iff (es : List RawExtension) :
    ∀ (fuel : ℕ) (out info : EncryptedExtensionsInfo), es.length ≤ fuel →
      (parseEncryptedExtensionsLoop fuel (encodeAll es) out = .ok info ↔
        NamesProtocols es ∧ es.foldl appliedAlpn out = info) := by
  induction es with
  | nil =>
    intro fuel out info _
    have hloop : parseEncryptedExtensionsLoop fuel (encodeAll []) out = .ok out := by
      cases fuel <;> rfl
    rw [hloop]
    simp [NamesProtocols]
  | cons e es ih =>
    intro fuel out info hfuel
    obtain ⟨fuel, rfl⟩ := Nat.exists_eq_succ_of_ne_zero
      (Nat.ne_of_gt (Nat.lt_of_lt_of_le (Nat.succ_pos _) hfuel))
    have hlength : (encodeAll (e :: es)).length = e.body.length + 4 + (encodeAll es).length := by
      rw [encodeAll_cons, List.length_append, encode_length]
    have hdrop : (encodeAll (e :: es)).drop 4 = e.body ++ encodeAll es := by
      rw [encodeAll_cons, drop_encode]
    have hcons : NamesProtocols (e :: es) ↔ (e.type = 0x0010 →
        ∃ name, 0 < name.length ∧ name.length ≤ 255 ∧ e.body = alpnBody name) ∧
        NamesProtocols es := List.forall_mem_cons
    have hrest := ih fuel
    unfold parseEncryptedExtensionsLoop
    rw [if_neg (by omega), if_neg (by omega)]
    dsimp only
    rw [hdrop, show loadBe16 (encodeAll (e :: es)) 0 = e.type by rw [encodeAll_cons, loadType],
      show loadBe16 (encodeAll (e :: es)) 2 = e.body.length by rw [encodeAll_cons, loadLength],
      if_neg (by rw [List.length_append]; omega), List.drop_left, hcons, List.foldl_cons]
    by_cases htype : e.type = 0x0010
    · rw [if_pos htype]
      have hiff := alpnBody_iff e.body e.bodyBound
      by_cases hshort : e.body.length < 3
      · rw [if_pos hshort]
        simp only [reduceCtorEq, false_iff]
        rintro ⟨⟨hname, -⟩, -⟩
        have := (hiff.mp (hname htype)).1
        omega
      · rw [if_neg hshort, loadBe16_append (by omega), byteAt_append (by omega)]
        by_cases hlist : loadBe16 e.body 0 + 2 ≠ e.body.length ∨ loadBe16 e.body 0 < 1
        · rw [if_pos hlist]
          simp only [reduceCtorEq, false_iff]
          rintro ⟨⟨hname, -⟩, -⟩
          have := hiff.mp (hname htype)
          omega
        · rw [if_neg hlist]
          by_cases hproto : (byteAt e.body 2).toNat = 0 ∨
              (byteAt e.body 2).toNat + 1 ≠ loadBe16 e.body 0
          · rw [if_pos hproto]
            simp only [reduceCtorEq, false_iff]
            rintro ⟨⟨hname, -⟩, -⟩
            have := hiff.mp (hname htype)
            omega
          · have hname : slice (e.body ++ encodeAll es) 3 (byteAt e.body 2).toNat =
                e.body.drop 3 := by
              unfold slice
              rw [List.drop_append_of_le_length (by omega)]
              exact List.take_left' (by rw [List.length_drop]; omega)
            have happlied : appliedAlpn out e = ⟨some (e.body.drop 3)⟩ := if_pos htype
            rw [if_neg hproto, hname, hrest _ _ (Nat.le_of_succ_le_succ hfuel), happlied]
            have hwell := hiff.mpr (by omega)
            simp [hwell]
    · have happlied : appliedAlpn out e = out := if_neg htype
      rw [if_neg htype, hrest _ _ (Nat.le_of_succ_le_succ hfuel), happlied]
      simp [htype]

/-- What the loop accepts is a string of extensions. -/
theorem extensions_of_loop (fuel : ℕ) :
    ∀ (p : Bytes) (out info : EncryptedExtensionsInfo),
      parseEncryptedExtensionsLoop fuel p out = .ok info → p.length ≤ fuel →
      ∃ es, p = encodeAll es := by
  induction fuel with
  | zero =>
    intro p out info _ hfuel
    exact ⟨[], List.eq_nil_of_length_eq_zero (Nat.le_zero.mp hfuel)⟩
  | succ fuel ih =>
    intro p out info hloop hfuel
    unfold parseEncryptedExtensionsLoop at hloop
    split at hloop
    · next hempty => exact ⟨[], List.eq_nil_of_length_eq_zero hempty⟩
    split at hloop
    · cases hloop
    next hlong =>
    dsimp only at hloop
    split at hloop
    · cases hloop
    next hfits =>
    rw [List.length_drop] at hfits
    have hrest : ∃ out', parseEncryptedExtensionsLoop fuel
        ((p.drop 4).drop (loadBe16 p 2)) out' = .ok info := by
      split at hloop
      · split at hloop
        · cases hloop
        split at hloop
        · cases hloop
        split at hloop
        · cases hloop
        · exact ⟨_, hloop⟩
      · exact ⟨_, hloop⟩
    obtain ⟨out', hrest⟩ := hrest
    obtain ⟨es, hes⟩ := ih _ _ _ hrest (by simp only [List.length_drop]; omega)
    obtain ⟨e, he⟩ := exists_extension (b := p) (by omega) (by omega)
    rw [← List.drop_drop, hes] at he
    exact ⟨e :: es, by rw [he, encodeAll_cons]⟩

/-- EncryptedExtensions are read exactly where they say what is read. -/
theorem parseEncryptedExtensions_iff (msg : HandshakeMessage) (info : EncryptedExtensionsInfo) :
    parseEncryptedExtensions msg = .ok info ↔ ∃ es, SaysExtensions msg es info := by
  have hfold : ∀ es : List RawExtension, (es.foldl appliedAlpn ⟨none⟩).alpn =
      (lastBody 0x0010 es).map (List.drop 3) := by
    intro es
    rw [foldl_read appliedAlpn (fun s => s.alpn) 0x0010 fun b => some (b.drop 3)]
    · cases lastBody 0x0010 es <;> rfl
    · intro s e
      unfold appliedAlpn
      split_ifs <;> rfl
  constructor
  · intro hparse
    unfold parseEncryptedExtensions at hparse
    split at hparse
    · cases hparse
    next hkind =>
    rw [not_or, not_not] at hkind
    dsimp only at hparse
    split at hparse
    · cases hparse
    next hlength =>
    obtain ⟨es, hes⟩ := extensions_of_loop _ _ _ _ hparse (Nat.le_refl _)
    rw [hes] at hparse hlength
    rw [not_not] at hlength
    have hbound := loadBe16_le msg.body 0
    obtain ⟨hnames, hinfo⟩ := (parseEncryptedExtensionsLoop_iff es _ _ _
      (length_le_encodeAll es)).mp hparse
    refine ⟨es, hkind.1, by omega, ?_, hnames, ?_⟩
    · unfold encodeExtensions
      rw [← hlength, ← hes, ← slice_two (by omega)]
      simp [slice]
    · rw [← hinfo, hfold]
  · rintro ⟨es, htype, hbound, hbody, hnames, halpn⟩
    have hlong : 2 ≤ msg.body.length := by
      rw [hbody, encodeExtensions, List.length_append, storeBe16_length]
      omega
    have hdrop : msg.body.drop 2 = encodeAll es := by
      rw [hbody]
      exact @List.drop_left _ (storeBe16 (encodeAll es).length) _
    have hload : loadBe16 msg.body 0 = (encodeAll es).length := by
      rw [hbody]
      exact loadBe16_storeBe16 _ hbound _
    unfold parseEncryptedExtensions
    rw [if_neg (by simp [htype]; omega)]
    dsimp only
    rw [hdrop, hload, if_neg (by simp)]
    apply (parseEncryptedExtensionsLoop_iff es _ _ _ (length_le_encodeAll es)).mpr
    refine ⟨hnames, ?_⟩
    have hsame := (hfold es).trans halpn.symm
    generalize es.foldl appliedAlpn ⟨none⟩ = out at hsame
    cases out
    cases info
    cases hsame
    rfl

/-! ## One message, one list of extensions -/

/-- The bytes determine the parts of a ServerHello. -/
theorem helloParts_encode_inj {m m' : HelloParts} (h : m.encode = m'.encode) : m = m' := by
  have hfields := fieldsOf_encode m
  have hfields' := fieldsOf_encode m'
  rw [← h] at hfields'
  have hlength : m.sessionId.length = m'.sessionId.length :=
    hfields.sessionLength.symm.trans hfields'.sessionLength
  have hrandom : m.random = m'.random :=
    Subtype.ext (hfields.random.symm.trans hfields'.random)
  have hsession : m.sessionId = m'.sessionId := by
    rw [← hfields.sessionId, hlength, hfields'.sessionId]
  have hsuite : m.cipherSuite = m'.cipherSuite := by
    rw [← hfields.cipherSuite, hlength, hfields'.cipherSuite]
  have hextensions : m.extensions = m'.extensions := by
    apply encodeAll_inj
    rw [encode_eq, encode_eq] at h
    exact (List.append_inj h (by rw [helloFront_length, helloFront_length, hlength])).2
  cases m
  cases m'
  cases hrandom
  cases hsession
  cases hsuite
  cases hextensions
  rfl

/-- The bytes determine the extensions. -/
theorem encodeExtensions_inj {es es' : List RawExtension}
    (h : encodeExtensions es = encodeExtensions es') : es = es' :=
  encodeAll_inj (List.append_inj h rfl).2

/-! ## Without a repetition the order does not matter -/

/-- With each type once, the extension of a type is the same in any order. -/
theorem lastBody_perm {t : ℕ} {es es' : List RawExtension} (honce : (types es).Nodup)
    (hperm : es'.Perm es) : lastBody t es' = lastBody t es := by
  have hfilter := hperm.filter fun e => e.type = t
  have hshort : (es.filter fun e => e.type = t).length ≤ 1 := by
    have hcount := List.nodup_iff_count_le_one.mp honce t
    rw [types, List.count_eq_countP, List.countP_map, List.countP_eq_length_filter] at hcount
    exact hcount
  unfold lastBody
  congr 1
  match hes : es.filter fun e => e.type = t with
  | [] =>
    rw [hes] at hfilter
    rw [List.perm_nil.mp hfilter, hes]
  | [e] =>
    rw [hes] at hfilter
    rw [List.perm_singleton.mp hfilter, hes]
  | _ :: _ :: _ =>
    rw [hes] at hshort
    simp at hshort

/-- Extensions of different types say the same in another order. -/
theorem says_perm {m m' : HelloParts} (honce : (types m.extensions).Nodup)
    (hrandom : m'.random = m.random) (hsession : m'.sessionId = m.sessionId)
    (hsuite : m'.cipherSuite = m.cipherSuite) (hperm : m'.extensions.Perm m.extensions)
    {info : ServerHelloInfo} (h : m.Says info) : m'.Says info := by
  have hretry : m'.isRetry = m.isRetry := by
    unfold HelloParts.isRetry
    rw [hrandom]
  refine ⟨?_, ?_, ?_, ?_, ?_, ?_, ?_, h.selectedVersion, ?_, ?_⟩
  · rw [hrandom]
    exact h.random
  · rw [hsession]
    exact h.sessionId
  · rw [hsuite]
    exact h.cipherSuite
  · rw [hretry]
    exact h.retry
  · rw [hsuite]
    exact h.suite
  · intro e he
    rw [hretry]
    exact h.wellFormed e (hperm.mem_iff.mp he)
  · rw [lastBody_perm honce hperm]
    exact h.version
  · have hshare := h.share
    unfold HelloParts.Shares at hshare ⊢
    rw [hretry, lastBody_perm honce hperm]
    exact hshare
  · rw [lastBody_perm honce hperm]
    exact h.cookie

/-! ## The main result -/

/-- **A repetition is refused exactly where nothing else is right**: what is accepted has each
type once, unless it is a message with a type twice whose extensions are well formed and whose
last copies are acceptable.  With each type once, what is reported does not depend on the
order. -/
theorem typesOnce_iff (h : Bytes) (msg : HandshakeMessage) :
    (HelloTypesOnce h ↔ ¬ HelloRepeatsType h) ∧
    (FlightTypesOnce msg ↔ ¬ FlightRepeatsType msg) ∧
    (∀ (m m' : HelloParts) (info : ServerHelloInfo), (types m.extensions).Nodup →
      m'.random = m.random → m'.sessionId = m.sessionId → m'.cipherSuite = m.cipherSuite →
      m'.extensions.Perm m.extensions → parseServerHello m.encode = .ok info →
      parseServerHello m'.encode = .ok info) ∧
    ∀ (msg msg' : HandshakeMessage) (es es' : List RawExtension)
      (info : EncryptedExtensionsInfo), (types es).Nodup → es'.Perm es →
      msg.body = encodeExtensions es → msg'.type = msg.type →
      msg'.body = encodeExtensions es' → parseEncryptedExtensions msg = .ok info →
      parseEncryptedExtensions msg' = .ok info := by
  refine ⟨?_, ?_, ?_, ?_⟩
  · constructor
    · rintro honce ⟨m, rfl, ⟨info, hsaid⟩, htwice⟩
      obtain ⟨m', hsame, hnodup⟩ := honce info ((parseServerHello_said m info).mpr hsaid)
      rw [helloParts_encode_inj hsame] at htwice
      exact htwice hnodup
    · intro hnone info hparse
      obtain ⟨m, hencode, hsaid⟩ := (parseServerHello_iff h info).mp hparse
      refine ⟨m, hencode, ?_⟩
      by_contra htwice
      exact hnone ⟨m, hencode, ⟨info, hsaid⟩, htwice⟩
  · constructor
    · rintro honce ⟨htype, es, hbody, hbound, hnames, htwice⟩
      obtain ⟨es', hsame, -, hnodup⟩ := honce ⟨(lastBody 0x0010 es).map (List.drop 3)⟩
        ((parseEncryptedExtensions_iff msg _).mpr ⟨es, htype, hbound, hbody, hnames, rfl⟩)
      rw [hbody] at hsame
      rw [encodeExtensions_inj hsame] at htwice
      exact htwice hnodup
    · intro hnone info hparse
      obtain ⟨es, htype, hbound, hbody, hnames, -⟩ :=
        (parseEncryptedExtensions_iff msg info).mp hparse
      refine ⟨es, hbody, hbound, ?_⟩
      by_contra htwice
      exact hnone ⟨htype, es, hbody, hbound, hnames, htwice⟩
  · intro m m' info honce hrandom hsession hsuite hperm hparse
    have hsaid := (parseServerHello_said m info).mp hparse
    exact (parseServerHello_said m' info).mpr (says_perm honce hrandom hsession hsuite hperm hsaid)
  · intro msg msg' es es' info honce hperm hbody htype' hbody' hparse
    obtain ⟨es₀, htype, hbound, hbody₀, hnames, halpn⟩ :=
      (parseEncryptedExtensions_iff msg info).mp hparse
    rw [hbody] at hbody₀
    obtain rfl := encodeExtensions_inj hbody₀
    refine (parseEncryptedExtensions_iff msg' info).mpr
      ⟨es', htype'.trans htype, ?_, hbody', ?_, ?_⟩
    · have hlength : (encodeAll es').length = (encodeAll es).length :=
        (hperm.flatMap_right encode).length_eq
      omega
    · intro e he
      exact hnames e (hperm.mem_iff.mp he)
    · rw [lastBody_perm honce hperm]
      exact halpn

/-- `mixedRetry` with its extensions the other way round. -/
def reversedRetry : HelloParts :=
  { mixedRetry with
    extensions := mixedRetry.extensions.reverse
    extensionsBound := by decide }

/-- A retry with its extensions in reverse order is read as it would be in order. -/
theorem typesOnce_iff_reversed : parseServerHello reversedRetry.encode = .ok
    (HelloKind.info (.retry .secp256r1 (.inr rfl) (some [1, 2, 3]) (by simp)) [7, 7]) :=
  (typesOnce_iff [] ⟨0, [], []⟩).2.2.1 mixedRetry reversedRetry _ (by decide) rfl rfl rfl
    (List.reverse_perm _) (by decide)

/-! ## Two messages with copies that differ -/

/-- A ServerHello with a share for P-256 and one for X25519. -/
def twoShares : HelloParts where
  random := .zero 32
  sessionId := []
  cipherSuite := tlsAes128GcmSha256
  extensions := [.supportedVersion,
    .keyShare (keyShareBody .secp256r1 (4 :: List.replicate 64 0)) (by decide),
    .keyShare (keyShareBody .x25519 (List.replicate 32 9)) (by decide)]
  sessionBound := by decide
  suiteBound := tlsAes128GcmSha256_lt
  extensionsBound := by decide

/-- The ALPN extensions for h2 and for h3. -/
def twoProtocols : List RawExtension :=
  [⟨0x0010, alpnBody [0x68, 0x32], by decide, by decide⟩,
    ⟨0x0010, alpnBody [0x68, 0x33], by decide, by decide⟩]

/-- **The last of two conflicting copies is reported**: a ServerHello with two shares for
different groups is accepted with the second, and an EncryptedExtensions with two protocols
with the second. -/
theorem twice_accepted_hello :
    (∃ info, parseServerHello twoShares.encode = .ok info ∧ info.group = .x25519 ∧
      info.keyShare = List.replicate 32 9) ∧
    ¬ HelloTypesOnce twoShares.encode ∧
    parseEncryptedExtensions ⟨hsEncryptedExtensions, encodeExtensions twoProtocols, []⟩ =
      .ok ⟨some [0x68, 0x33]⟩ ∧
    ¬ FlightTypesOnce ⟨hsEncryptedExtensions, encodeExtensions twoProtocols, []⟩ := by
  have hhello : parseServerHello twoShares.encode = .ok
      { random := List.replicate 32 0
        sessionId := []
        cipherSuite := tlsAes128GcmSha256
        selectedVersion := 0x0304
        group := .x25519
        keyShare := List.replicate 32 9
        helloRetryRequest := false
        cookie := [] } := by
    decide +kernel
  have hflight : parseEncryptedExtensions
      ⟨hsEncryptedExtensions, encodeExtensions twoProtocols, []⟩ = .ok ⟨some [0x68, 0x33]⟩ := by
    decide +kernel
  refine ⟨⟨_, hhello, rfl, rfl⟩, ?_, hflight, ?_⟩
  · intro honce
    obtain ⟨m, hsame, hnodup⟩ := honce _ hhello
    rw [← helloParts_encode_inj hsame] at hnodup
    exact absurd hnodup (by decide)
  · intro honce
    obtain ⟨es, hsame, -, hnodup⟩ := honce _ hflight
    rw [← encodeExtensions_inj hsame] at hnodup
    exact absurd hnodup (by decide)

end XboxTls.Analysis
