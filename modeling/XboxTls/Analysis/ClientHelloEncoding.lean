import Mathlib.Data.List.TakeWhile
import XboxTls.Interface.ClientHelloGrammar

/-!
# The ClientHello that is written

The writer casts every length to the width of its field, and goes on after a put that did
not fit; the flag is looked at behind each extension, and the size of all extensions
together at the end.  What comes out is the encoding of the parameters by the grammar
(`writeHelloExtensions_some`), and since all of it fits into 65535 bytes no length was cut, so
that decoding gives the parameters back (`clientHello_of_call`).
-/

set_option autoImplicit false

namespace XboxTls.Analysis

open Programs.Decoder XboxTls.Model XboxTls.Interface

/-! ## Numbers -/

/-- The code's 16-bit store is the number in two bytes. -/
theorem storeBe16_eq (v : ℕ) : storeBe16 v = uintBytes 2 v := rfl

/-- The code's 24-bit store is the number in three bytes. -/
theorem storeBe24_eq (v : ℕ) : storeBe24 v = uintBytes 3 v := by
  show _ = [UInt8.ofNat (v / 256 / 256), UInt8.ofNat (v / 256), UInt8.ofNat v]
  rw [Nat.div_div_eq_div_mul]
  rfl

/-! ## The writer -/

/-- `w'` is `w` with `b` behind it, if the flag is still set. -/
structure Puts (w : Writer) (b : Bytes) (w' : Writer) : Prop where
  cap : w'.cap = w.cap
  fits : w.out.length ≤ w.cap → w'.out.length ≤ w'.cap
  out : w'.ok = true → w.ok = true ∧ w'.out = w.out ++ b

/-- Nothing is put. -/
theorem puts_nil (w : Writer) : Puts w [] w where
  cap := rfl
  fits h := h
  out h := ⟨h, (List.append_nil _).symm⟩

/-- A put appends its bytes, or drops the flag. -/
theorem puts_bytes (w : Writer) (b : Bytes) : Puts w b (w.bytes b) := by
  unfold Writer.bytes
  by_cases hfull : w.out.length + b.length > w.cap
  · rw [if_pos hfull]
    exact ⟨rfl, fun h => h, fun h => by cases h⟩
  · rw [if_neg hfull]
    refine ⟨rfl, ?_, fun h => ⟨h, rfl⟩⟩
    intro _
    rw [List.length_append]
    show _ ≤ w.cap
    omega

/-- Two puts one after the other. -/
theorem Puts.trans {w w' w'' : Writer} {a b : Bytes} (h : Puts w a w') (h' : Puts w' b w'') :
    Puts w (a ++ b) w'' where
  cap := h'.cap.trans h.cap
  fits hw := h'.fits (h.fits hw)
  out hok := by
    obtain ⟨hok', hout'⟩ := h'.out hok
    obtain ⟨hok, hout⟩ := h.out hok'
    exact ⟨hok, by rw [hout', hout, List.append_assoc]⟩

/-- One more put. -/
theorem Puts.bytes {w w' : Writer} {a : Bytes} (h : Puts w a w') (b : Bytes) :
    Puts w (a ++ b) (w'.bytes b) := h.trans (puts_bytes w' b)

/-- A writer whose flag was looked at has it set. -/
theorem Puts.checked {w w' w'' : Writer} {b : Bytes} (h : Puts w b w')
    (hchecked : w'.checked = some w'') : Puts w b w'' ∧ w''.ok = true := by
  unfold Writer.checked at hchecked
  by_cases hok : w'.ok = true
  · rw [if_pos hok] at hchecked
    cases hchecked
    exact ⟨h, hok⟩
  · rw [if_neg hok] at hchecked
    cases hchecked

/-- Bytes that are overwritten by as many. -/
theorem patch_out (w : Writer) {a old b c : Bytes} (hout : w.out = a ++ old ++ c)
    (hlen : b.length = old.length) : (w.patch a.length b).out = a ++ b ++ c := by
  unfold Writer.patch
  have hsplit : w.out.drop (a.length + b.length) = c := by
    rw [hout, hlen, ← List.length_append]
    exact List.drop_left
  have hfront : w.out.take a.length = a := by
    rw [hout, List.append_assoc]
    exact List.take_left
  rw [if_neg]
  · dsimp only
    rw [hsplit, hfront]
  · rw [hout]
    simp only [List.length_append]
    omega

/-! ## The extension writers -/

/-- An extension is its type, the length of its data, and the data. -/
theorem encodeExtension_eq (e : HelloExtension) :
    encodeExtension e =
      storeBe16 e.type ++ (storeBe16 (encodeData e).length ++ encodeData e) := rfl

/-- The server name is written if there is one. -/
theorem extSni_some {w w' : Writer} {host : Option CString} (h : extSni w host = some w') :
    Puts w ((match host with
      | some host => if host.val = [] then [] else [HelloExtension.serverName [host.val]]
      | none => []).flatMap encodeExtension) w' := by
  unfold extSni at h
  cases host with
  | none =>
    cases h
    exact puts_nil w
  | some host =>
    dsimp only at h ⊢
    by_cases hempty : host.val = []
    · rw [if_pos (by rw [hempty]; rfl)] at h
      cases h
      rw [if_pos hempty]
      exact puts_nil w
    · rw [if_neg (by simpa using hempty)] at h
      split at h
      · cases h
      · have hputs :=
          (((((puts_bytes w (storeBe16 0)).bytes (storeBe16 (5 + host.val.length))).bytes
          (storeBe16 (3 + host.val.length))).bytes [UInt8.ofNat 0]).bytes
          (storeBe16 host.val.length)).bytes host.val
        have hsame : [HelloExtension.serverName [host.val]].flatMap encodeExtension =
            storeBe16 0 ++ storeBe16 (5 + host.val.length) ++ storeBe16 (3 + host.val.length) ++
              [UInt8.ofNat 0] ++ storeBe16 host.val.length ++ host.val := by
          have hdata : (encodeData (.serverName [host.val])).length = 5 + host.val.length := by
            simp [encodeData]
            omega
          have hname : [UInt8.ofNat 0].length + (2 + host.val.length) = 3 + host.val.length := by
            rw [List.length_singleton]
            omega
          simp only [List.flatMap_cons, List.flatMap_nil, List.append_nil, encodeExtension_eq,
            hdata]
          have hzero : uintBytes 1 0 = [UInt8.ofNat 0] := rfl
          simp only [encodeData, prefixed, List.flatMap_cons, List.flatMap_nil, List.append_nil,
            List.length_append, uintBytes_length, hzero, hname, storeBe16_eq, HelloExtension.type,
            List.append_assoc]
        rw [if_neg hempty, hsame]
        exact (hputs.checked h).1

/-- The one version is written. -/
theorem extSupportedVersions_some {w w' : Writer} (h : extSupportedVersions w = some w') :
    Puts w (encodeExtension (.supportedVersions [0x0304])) w' :=
  (((((puts_bytes w (storeBe16 0x002b)).bytes (storeBe16 3)).bytes [UInt8.ofNat 2]).bytes
    (storeBe16 0x0304)).checked h).1

/-- Both groups are written, in the code's order. -/
theorem extSupportedGroups_some {w w' : Writer} {g : NamedGroup}
    (h : extSupportedGroups w g = some w') :
    Puts w (encodeExtension (.supportedGroups
      (if g = .x25519 then [0x001d, 0x0017] else [g.code, 0x001d]))) w' := by
  have hputs := ((((puts_bytes w (storeBe16 0x000a)).bytes (storeBe16 6)).bytes
    (storeBe16 4)).bytes (storeBe16 g.code)).bytes
    (storeBe16 (if g = .x25519 then NamedGroup.secp256r1 else .x25519).code)
  have hchecked := (hputs.checked h).1
  by_cases hg : g = .x25519
  · rw [if_pos hg] at hchecked ⊢
    rw [hg] at hchecked
    exact hchecked
  · rw [if_neg hg] at hchecked ⊢
    exact hchecked

/-- The three signature algorithms are written. -/
theorem extSigAlgs_some {w w' : Writer} (h : extSigAlgs w = some w') :
    Puts w (encodeExtension (.signatureAlgorithms [0x0804, 0x0809, 0x0403])) w' :=
  (((((((puts_bytes w (storeBe16 0x000d)).bytes (storeBe16 8)).bytes (storeBe16 6)).bytes
    (storeBe16 0x0804)).bytes (storeBe16 0x0809)).bytes (storeBe16 0x0403)).checked h).1

/-- The one key share is written. -/
theorem extKeyShare_some {w w' : Writer} {g : NamedGroup} {k : Bytes}
    (h : extKeyShare w g k = some w') :
    Puts w (encodeExtension (.keyShare [(g.code, k)])) w' := by
  have hputs := (((((puts_bytes w (storeBe16 0x0033)).bytes (storeBe16 (6 + k.length))).bytes
    (storeBe16 (4 + k.length))).bytes (storeBe16 g.code)).bytes (storeBe16 k.length)).bytes k
  have hsame : encodeExtension (.keyShare [(g.code, k)]) =
      storeBe16 0x0033 ++ storeBe16 (6 + k.length) ++ storeBe16 (4 + k.length) ++
        storeBe16 g.code ++ storeBe16 k.length ++ k := by
    have hdata : (encodeData (.keyShare [(g.code, k)])).length = 6 + k.length := by
      simp [encodeData]
      omega
    have hshare : 2 + (2 + k.length) = 4 + k.length := by omega
    rw [encodeExtension_eq, hdata]
    simp [encodeData, prefixed, storeBe16_eq, hshare, HelloExtension.type]
  rw [hsame]
  exact (hputs.checked h).1

/-- The cookie is written if there is one. -/
theorem extCookie_some {w w' : Writer} {cookie : Bytes} (h : extCookie w cookie = some w') :
    Puts w ((if cookie = [] then [] else [HelloExtension.cookie cookie]).flatMap
      encodeExtension) w' := by
  unfold extCookie at h
  by_cases hempty : cookie = []
  · rw [if_pos (by rw [hempty]; rfl)] at h
    cases h
    rw [if_pos hempty]
    exact puts_nil w
  · rw [if_neg (by simpa using hempty)] at h
    split at h
    · cases h
    · have hputs := (((puts_bytes w (storeBe16 0x002c)).bytes (storeBe16 (2 + cookie.length))).bytes
        (storeBe16 cookie.length)).bytes cookie
      have hsame : [HelloExtension.cookie cookie].flatMap encodeExtension =
          storeBe16 0x002c ++ storeBe16 (2 + cookie.length) ++ storeBe16 cookie.length ++
            cookie := by
        have hdata : (encodeData (.cookie cookie)).length = 2 + cookie.length := by
          simp [encodeData]
        simp only [List.flatMap_cons, List.flatMap_nil, List.append_nil, encodeExtension_eq, hdata]
        simp [encodeData, prefixed, storeBe16_eq, HelloExtension.type]
      rw [if_neg hempty, hsame]
      exact (hputs.checked h).1

/-! ## ALPN -/

/-- A first piece and what stands behind its comma. -/
theorem offeredProtocols_comma {piece : Bytes} (hpiece : UInt8.ofNat 44 ∉ piece) (rest : Bytes) :
    offeredProtocols (piece ++ UInt8.ofNat 44 :: rest) = piece :: offeredProtocols rest := by
  have hsplit : (piece ++ UInt8.ofNat 44 :: rest).splitOn (UInt8.ofNat 44) =
      piece :: rest.splitOn (UInt8.ofNat 44) :=
    List.splitOn_append_cons_self_of_not_mem hpiece rest
  have hne := List.splitOn_ne_nil (UInt8.ofNat 44) rest
  unfold offeredProtocols
  rw [hsplit]
  generalize rest.splitOn (UInt8.ofNat 44) = pieces at hne
  cases pieces with
  | nil => exact absurd rfl hne
  | cons a as =>
    dsimp only
    rw [List.getLast?_cons_cons, List.dropLast_cons_cons]
    split <;> rfl

/-- One piece without a comma. -/
theorem offeredProtocols_single {piece : Bytes} (hpiece : UInt8.ofNat 44 ∉ piece)
    (hne : piece ≠ []) : offeredProtocols piece = [piece] := by
  unfold offeredProtocols
  rw [List.splitOn_eq_singleton hpiece]
  simp [hne]

/-- The pieces are those between the commas. -/
theorem alpnPieces_eq (alpn : Bytes) : alpnPieces alpn = offeredProtocols alpn := by
  suffices hgo : ∀ fuel (p : Bytes), p.length ≤ fuel →
      alpnPieces.go fuel p = offeredProtocols p from hgo _ _ (Nat.le_refl _)
  intro fuel
  induction fuel with
  | zero =>
    intro p hp
    have hnil : p = [] := List.eq_nil_of_length_eq_zero (by omega)
    rw [hnil]
    rfl
  | succ fuel ih =>
    intro p hp
    unfold alpnPieces.go
    by_cases hnil : p = []
    · rw [if_pos (by rw [hnil]; rfl), hnil]
      rfl
    · rw [if_neg (by simpa using hnil)]
      dsimp only
      have hparts := List.takeWhile_append_dropWhile (p := (· ≠ UInt8.ofNat 44)) (l := p)
      have hpiece : UInt8.ofNat 44 ∉ p.takeWhile (· ≠ UInt8.ofNat 44) := by
        intro hmem
        simpa using List.mem_takeWhile_imp hmem
      generalize p.takeWhile (· ≠ UInt8.ofNat 44) = piece at hparts hpiece ⊢
      cases hrest : p.dropWhile (· ≠ UInt8.ofNat 44) with
      | nil =>
        rw [hrest, List.append_nil] at hparts
        have hend : p.drop (piece.length + 1) = [] :=
          List.drop_of_length_le (by rw [hparts]; omega)
        have hgo := ih [] (Nat.zero_le _)
        rw [hend, hgo, ← hparts, offeredProtocols_single hpiece (hparts ▸ hnil)]
        rfl
      | cons x tail =>
        have hcomma : x = UInt8.ofNat 44 := by
          have hhead := List.head_dropWhile_not (p := (· ≠ UInt8.ofNat 44)) (l := p)
            (by rw [hrest]; simp)
          simp only [hrest, List.head_cons] at hhead
          simpa using hhead
        rw [hrest, hcomma] at hparts
        have hend : p.drop (piece.length + 1) = tail := by
          rw [← hparts, ← List.drop_drop, List.drop_left]
          rfl
        have htail : tail.length ≤ fuel := by
          have hlen := congrArg List.length hparts
          simp only [List.length_append, List.length_cons] at hlen
          omega
        rw [hend, ih tail htail, ← hparts, offeredProtocols_comma hpiece]

/-- A string that is not empty offers a protocol. -/
theorem offeredProtocols_ne_nil {alpn : Bytes} (h : alpn ≠ []) : offeredProtocols alpn ≠ [] := by
  rw [← alpnPieces_eq]
  cases alpn with
  | nil => exact absurd rfl h
  | cons x rest =>
    unfold alpnPieces
    rw [List.length_cons, alpnPieces.go, if_neg (by simp)]
    exact List.cons_ne_nil _ _

/-- The size of the list, when each piece fits into its length byte. -/
theorem alpnListSize_some {pieces : List Bytes} {size total : ℕ}
    (h : alpnListSize pieces size = some total) :
    total = size + (pieces.flatMap (prefixed 1)).length ∧
      ∀ piece ∈ pieces, 1 ≤ piece.length ∧ piece.length ≤ 255 := by
  induction pieces generalizing size with
  | nil =>
    cases h
    exact ⟨rfl, by simp⟩
  | cons piece rest ih =>
    unfold alpnListSize at h
    split at h
    · cases h
    split at h
    · cases h
    rename_i hpiece _
    obtain ⟨htotal, hrest⟩ := ih h
    rw [List.flatMap_cons, List.length_append, prefixed_length]
    refine ⟨by omega, ?_⟩
    intro x hx
    rcases List.mem_cons.mp hx with rfl | hx
    · omega
    · exact hrest x hx

/-- Every protocol is written behind its length. -/
theorem puts_pieces (pieces : List Bytes) (w : Writer) :
    Puts w (pieces.flatMap (prefixed 1))
      (pieces.foldl (fun w piece => (w.put8 piece.length).bytes piece) w) := by
  induction pieces generalizing w with
  | nil => exact puts_nil w
  | cons piece rest ih =>
    have hpiece : Puts w (prefixed 1 piece) ((w.put8 piece.length).bytes piece) :=
      (puts_bytes w _).bytes piece
    rw [List.flatMap_cons, List.foldl_cons]
    exact hpiece.trans (ih _)

/-- The protocols are written if there are any. -/
theorem extAlpn_some {w w' : Writer} {alpn : Option CString} (h : extAlpn w alpn = some w') :
    Puts w ((match alpn with
      | some alpn => if alpn.val = [] then [] else [HelloExtension.alpn (offeredProtocols alpn.val)]
      | none => []).flatMap encodeExtension) w' ∧
    ∀ a, alpn = some a → ∀ piece ∈ offeredProtocols a.val,
      1 ≤ piece.length ∧ piece.length ≤ 255 := by
  unfold extAlpn at h
  cases alpn with
  | none =>
    cases h
    exact ⟨puts_nil w, by simp⟩
  | some alpn =>
    dsimp only at h ⊢
    by_cases hempty : alpn.val = []
    · rw [if_pos (by rw [hempty]; rfl)] at h
      cases h
      rw [if_pos hempty]
      refine ⟨puts_nil w, ?_⟩
      rintro a ⟨⟩ piece hpiece
      rw [hempty] at hpiece
      cases hpiece
    · rw [if_neg (by simpa using hempty), alpnPieces_eq] at h
      cases hsize : alpnListSize (offeredProtocols alpn.val) 0 with
      | none =>
        rw [hsize] at h
        cases h
      | some listSize =>
        rw [hsize] at h
        obtain ⟨hlist, hpieces⟩ := alpnListSize_some hsize
        rw [Nat.zero_add] at hlist
        have hputs := (((puts_bytes w (storeBe16 0x0010)).bytes (storeBe16 (2 + listSize))).bytes
          (storeBe16 listSize)).trans (puts_pieces (offeredProtocols alpn.val) _)
        have hsame : [HelloExtension.alpn (offeredProtocols alpn.val)].flatMap encodeExtension =
            storeBe16 0x0010 ++ storeBe16 (2 + listSize) ++ storeBe16 listSize ++
              (offeredProtocols alpn.val).flatMap (prefixed 1) := by
          have hdata : (encodeData (.alpn (offeredProtocols alpn.val))).length = 2 + listSize := by
            simp only [encodeData, prefixed_length, hlist]
          simp only [List.flatMap_cons, List.flatMap_nil, List.append_nil, encodeExtension_eq,
            hdata]
          simp only [encodeData, prefixed, hlist, storeBe16_eq, HelloExtension.type,
            List.append_assoc]
        rw [if_neg hempty, hsame]
        refine ⟨(hputs.checked h).1, ?_⟩
        rintro a ⟨⟩
        exact hpieces

/-! ## All extensions -/

/-- **The extensions that are written** are those that the parameters ask for. -/
theorem writeHelloExtensions_some {p : ClientHelloParams} {w w' : Writer}
    (h : writeHelloExtensions p w = some w') :
    Puts w ((extensionsOf p).flatMap encodeExtension) w' ∧ w'.ok = true ∧
      ∀ a, p.alpn = some a → ∀ piece ∈ offeredProtocols a.val,
        1 ≤ piece.length ∧ piece.length ≤ 255 := by
  unfold writeHelloExtensions at h
  simp only [Option.bind_eq_bind, Option.bind_eq_some_iff] at h
  obtain ⟨w₁, h₁, w₂, h₂, w₃, h₃, w₄, h₄, w₅, h₅, w₆, h₆, w₇, h₇, hchecked⟩ := h
  obtain ⟨halpn, hpieces⟩ := extAlpn_some h₇
  have hmiddle := ((extSupportedVersions_some h₂).trans (extSupportedGroups_some h₃)).trans
    ((extSigAlgs_some h₄).trans (extKeyShare_some h₅))
  have hall := (((extSni_some h₁).trans hmiddle).trans (extCookie_some h₆)).trans halpn
  obtain ⟨hputs, hok⟩ := hall.checked hchecked
  refine ⟨?_, hok, hpieces⟩
  unfold extensionsOf
  simp only [List.flatMap_append, List.flatMap_cons, List.flatMap_nil, List.append_nil,
    List.append_assoc] at hputs ⊢
  exact hputs

/-! ## Decoding an extension -/

/-- A part is not longer than the whole. -/
theorem length_le_flatMap {α : Type} {f : α → Bytes} {as : List α} {a : α} (h : a ∈ as) :
    (f a).length ≤ (as.flatMap f).length := by
  rw [List.flatMap_def]
  exact (List.sublist_flatten_of_mem (List.mem_map_of_mem h)).length_le

/-- A list of 16-bit numbers. -/
theorem reads_uints {k lo hi : ℕ} {vs : List ℕ} (h : ∀ v ∈ vs, v < 65536)
    (hk : (vs.flatMap (uintBytes 2)).length < 256 ^ k)
    (hlo : lo ≤ (vs.flatMap (uintBytes 2)).length) (hhi : (vs.flatMap (uintBytes 2)).length ≤ hi) :
    Reads (vector k lo hi (uint 2)) (prefixed k (vs.flatMap (uintBytes 2))) vs := by
  refine reads_vector ?_ hk hlo hhi
  intro v hv
  refine ⟨reads_uint (h v hv), ?_⟩
  intro hnil
  have hlen := congrArg List.length hnil
  rw [uintBytes_length] at hlen
  cases hlen

/-- A string behind its length is not empty. -/
theorem prefixed_ne_nil {k : ℕ} (hk : 0 < k) (b : Bytes) : prefixed k b ≠ [] := by
  intro hnil
  have hlen := congrArg List.length hnil
  rw [prefixed_length, List.length_nil] at hlen
  omega

/-- A host name is read. -/
theorem reads_serverName {name : Bytes} (hlo : 1 ≤ name.length) (hhi : name.length ≤ 65535) :
    Reads serverName (uintBytes 1 0 ++ prefixed 2 name) name := by
  have htype : Reads (uint 1) (uintBytes 1 0) 0 := reads_uint (by decide)
  have hname : Reads (bounded 2 1 65535) (prefixed 2 name) name :=
    reads_bounded (by omega) hlo hhi
  apply reads_bind htype
  rw [← List.nil_append (prefixed 2 name)]
  exact reads_bind (reads_require rfl) hname

/-- A key share is read. -/
theorem reads_keyShareEntry {group : ℕ} {key : Bytes} (hgroup : group < 65536)
    (hlo : 1 ≤ key.length) (hhi : key.length ≤ 65535) :
    Reads keyShareEntry (uintBytes 2 group ++ prefixed 2 key) (group, key) :=
  reads_bind (reads_uint hgroup)
    (reads_bind_pure (reads_bounded (by omega) hlo hhi) (reads_pure _))

/-- What the client puts into an extension of its own. -/
def OwnExtension : HelloExtension → Prop
  | .serverName names => ∃ name, names = [name] ∧ 1 ≤ name.length
  | .supportedGroups groups => (∀ g ∈ groups, g < 65536) ∧ 1 ≤ groups.length
  | .signatureAlgorithms algorithms => algorithms = [0x0804, 0x0809, 0x0403]
  | .alpn names => names ≠ [] ∧ ∀ name ∈ names, 1 ≤ name.length ∧ name.length ≤ 255
  | .supportedVersions versions => versions = [0x0304]
  | .cookie value => 1 ≤ value.length
  | .keyShare shares => ∃ group key, shares = [(group, key)] ∧ group < 65536 ∧ 1 ≤ key.length

/-- The data of an extension are decoded as they were encoded, if their length was not
cut. -/
theorem extensionData_encode {e : HelloExtension} (he : OwnExtension e)
    (hlen : (encodeData e).length ≤ 65535) : extensionData e.type (encodeData e) = some e := by
  cases e with
  | serverName names =>
    obtain ⟨name, rfl, hname⟩ := he
    simp only [encodeData, prefixed_length, List.flatMap_cons, List.flatMap_nil, List.append_nil,
      List.length_append, uintBytes_length] at hlen
    have hreads : Reads (vector 2 1 65535 serverName)
        (prefixed 2 ([name].flatMap fun name => uintBytes 1 0 ++ prefixed 2 name)) [name] := by
      refine reads_vector ?_ ?_ ?_ ?_
      · intro a ha
        rw [List.mem_singleton.mp ha]
        exact ⟨reads_serverName hname (by omega), by simp [prefixed_ne_nil]⟩
      all_goals simp <;> omega
    show (whole _ _).map _ = _
    rw [encodeData, hreads.whole]
    rfl
  | supportedGroups groups =>
    obtain ⟨hgroups, hne⟩ := he
    rw [encodeData, prefixed_length] at hlen
    have htwo : 2 ≤ (groups.flatMap (uintBytes 2)).length := by
      obtain ⟨g, hg⟩ := List.exists_mem_of_length_pos hne
      have hle := length_le_flatMap (f := uintBytes 2) hg
      rwa [uintBytes_length] at hle
    have hreads : Reads (vector 2 2 65535 (uint 2)) (prefixed 2 (groups.flatMap (uintBytes 2)))
        groups := reads_uints hgroups (by omega) htwo (by omega)
    show (whole _ _).map _ = _
    rw [encodeData, hreads.whole]
    rfl
  | signatureAlgorithms algorithms =>
    rw [show algorithms = [0x0804, 0x0809, 0x0403] from he]
    decide
  | alpn names =>
    obtain ⟨hne, hnames⟩ := he
    rw [encodeData, prefixed_length] at hlen
    have htwo : 2 ≤ (names.flatMap (prefixed 1)).length := by
      obtain ⟨name, hname⟩ := List.exists_mem_of_ne_nil _ hne
      have hle := length_le_flatMap (f := prefixed 1) hname
      rw [prefixed_length] at hle
      have hpos := (hnames name hname).1
      omega
    have hreads : Reads (vector 2 2 65535 (bounded 1 1 255))
        (prefixed 2 (names.flatMap (prefixed 1))) names := by
      refine reads_vector ?_ (by omega) htwo (by omega)
      intro name hname
      obtain ⟨hlo, hhi⟩ := hnames name hname
      exact ⟨reads_bounded (by omega) hlo hhi, prefixed_ne_nil (by omega) name⟩
    show (whole _ _).map _ = _
    rw [encodeData, hreads.whole]
    rfl
  | supportedVersions versions =>
    rw [show versions = [0x0304] from he]
    decide
  | cookie value =>
    rw [encodeData, prefixed_length] at hlen
    have hreads : Reads (bounded 2 1 65535) (prefixed 2 value) value :=
      reads_bounded (by omega) he (by omega)
    show (whole _ _).map _ = _
    rw [encodeData, hreads.whole]
    rfl
  | keyShare shares =>
    obtain ⟨group, key, rfl, hgroup, hkey⟩ := he
    simp only [encodeData, prefixed_length, List.flatMap_cons, List.flatMap_nil, List.append_nil,
      List.length_append, uintBytes_length] at hlen
    have hreads : Reads (vector 2 0 65535 keyShareEntry)
        (prefixed 2 ([(group, key)].flatMap fun share =>
          uintBytes 2 share.1 ++ prefixed 2 share.2)) [(group, key)] := by
      refine reads_vector ?_ ?_ ?_ ?_
      · intro a ha
        rw [List.mem_singleton.mp ha]
        exact ⟨reads_keyShareEntry hgroup hkey (by dsimp only; omega), by simp [prefixed_ne_nil]⟩
      all_goals simp <;> omega
    show (whole _ _).map _ = _
    rw [encodeData, hreads.whole]
    rfl

/-- The extensions that the parameters ask for are of the client's own kind. -/
theorem ownExtension_of_mem {p : ClientHelloParams} (hgroup : p.group.code < 65536)
    (hkey : 1 ≤ p.keyShare.length)
    (halpn : ∀ a, p.alpn = some a → ∀ piece ∈ offeredProtocols a.val,
      1 ≤ piece.length ∧ piece.length ≤ 255)
    {e : HelloExtension} (he : e ∈ extensionsOf p) : OwnExtension e := by
  unfold extensionsOf at he
  rcases List.mem_append.mp he with he | he
  · rcases List.mem_append.mp he with he | he
    · rcases List.mem_append.mp he with he | he
      · cases hname : p.serverName with
        | none =>
          rw [hname] at he
          cases he
        | some host =>
          rw [hname] at he
          dsimp only at he
          by_cases hempty : host.val = []
          · rw [if_pos hempty] at he
            cases he
          · rw [if_neg hempty] at he
            rw [List.mem_singleton.mp he]
            exact ⟨host.val, rfl, List.length_pos_of_ne_nil hempty⟩
      · simp only [List.mem_cons, List.not_mem_nil, or_false] at he
        rcases he with rfl | rfl | rfl | rfl
        · rfl
        · by_cases hg : p.group = .x25519
          · rw [if_pos hg]
            exact ⟨by simp, by simp⟩
          · rw [if_neg hg]
            refine ⟨?_, by simp⟩
            intro g hmem
            rcases List.mem_cons.mp hmem with rfl | hmem
            · exact hgroup
            · rw [List.mem_singleton.mp hmem]
              decide
        · rfl
        · exact ⟨p.group.code, p.keyShare, rfl, hgroup, hkey⟩
    · by_cases hempty : p.cookie = []
      · rw [if_pos hempty] at he
        cases he
      · rw [if_neg hempty] at he
        rw [List.mem_singleton.mp he]
        exact List.length_pos_of_ne_nil hempty
  · cases hname : p.alpn with
    | none =>
      rw [hname] at he
      cases he
    | some alpn =>
      rw [hname] at he
      dsimp only at he
      by_cases hempty : alpn.val = []
      · rw [if_pos hempty] at he
        cases he
      · rw [if_neg hempty] at he
        rw [List.mem_singleton.mp he]
        exact ⟨offeredProtocols_ne_nil hempty, halpn alpn hname⟩

/-- No type of extension comes twice. -/
theorem nodup_extensionsOf (p : ClientHelloParams) :
    ((extensionsOf p).map HelloExtension.type).Nodup := by
  have hall : ((extensionsOf p).map HelloExtension.type).Sublist [0, 43, 10, 13, 51, 44, 16] := by
    unfold extensionsOf
    rw [List.map_append, List.map_append, List.map_append]
    have hname : ((match p.serverName with
        | some host => if host.val = [] then [] else [HelloExtension.serverName [host.val]]
        | none => []).map HelloExtension.type).Sublist [0] := by
      split
      · split <;> simp [HelloExtension.type]
      · simp
    have hcookie : ((if p.cookie = [] then [] else [HelloExtension.cookie p.cookie]).map
        HelloExtension.type).Sublist [44] := by
      split <;> simp [HelloExtension.type]
    have halpn : ((match p.alpn with
        | some alpn =>
          if alpn.val = [] then [] else [HelloExtension.alpn (offeredProtocols alpn.val)]
        | none => []).map HelloExtension.type).Sublist [16] := by
      split
      · split <;> simp [HelloExtension.type]
      · simp
    exact ((hname.append (List.Sublist.refl [43, 10, 13, 51])).append hcookie).append halpn
  exact hall.nodup (by decide)

/-- **An extension list whose length is not cut is decoded** as it was asked for. -/
theorem reads_extensions {p : ClientHelloParams} (hgroup : p.group.code < 65536)
    (hkey : 1 ≤ p.keyShare.length)
    (halpn : ∀ a, p.alpn = some a → ∀ piece ∈ offeredProtocols a.val,
      1 ≤ piece.length ∧ piece.length ≤ 255)
    (hlen : ((extensionsOf p).flatMap encodeExtension).length ≤ 65535) :
    Reads (vector 2 8 65535 helloExtension)
      (prefixed 2 ((extensionsOf p).flatMap encodeExtension)) (extensionsOf p) := by
  have height : 8 ≤ ((extensionsOf p).flatMap encodeExtension).length := by
    have hmem : .signatureAlgorithms [0x0804, 0x0809, 0x0403] ∈ extensionsOf p := by
      simp [extensionsOf]
    have hle := length_le_flatMap (f := encodeExtension) hmem
    have htwelve : (encodeExtension (.signatureAlgorithms [0x0804, 0x0809, 0x0403])).length = 12 :=
      rfl
    omega
  refine reads_vector ?_ (by omega) height hlen
  intro e he
  have hle := length_le_flatMap (f := encodeExtension) he
  have hdata : (encodeData e).length ≤ 65535 := by
    have hencoded : (encodeExtension e).length = 2 + (2 + (encodeData e).length) := by
      rw [encodeExtension, List.length_append, uintBytes_length, prefixed_length]
    omega
  have htype : e.type < 65536 := by
    cases e <;> simp [HelloExtension.type]
  have hown := ownExtension_of_mem hgroup hkey halpn he
  refine ⟨?_, ?_⟩
  · apply reads_bind (reads_uint htype)
    apply reads_bind_pure (reads_bounded (by omega) (Nat.zero_le _) hdata)
    exact reads_ofOption (extensionData_encode hown hdata)
  · unfold encodeExtension
    simp [prefixed_ne_nil]

/-! ## The message -/

/-- The fields before the extensions, behind a type and a place for the length. -/
theorem puts_helloFields (p : ClientHelloParams) (cap : ℕ) :
    Puts ⟨cap, [], true⟩ (uintBytes 1 1 ++ uintBytes 3 0 ++ encodeFields p)
      (writeHelloFields p cap) := by
  have hputs := (((((((((puts_bytes ⟨cap, [], true⟩ [UInt8.ofNat hsClientHello.toNat]).bytes
    (storeBe24 0)).bytes (storeBe16 0x0303)).bytes p.random32).bytes
    [UInt8.ofNat p.sessionId.length]).bytes p.sessionId).bytes (storeBe16 2)).bytes
    (storeBe16 tlsAes128GcmSha256)).bytes [UInt8.ofNat 1]).bytes [UInt8.ofNat 0]
  have hsame : uintBytes 1 1 ++ uintBytes 3 0 ++ encodeFields p =
      [UInt8.ofNat hsClientHello.toNat] ++ storeBe24 0 ++ storeBe16 0x0303 ++ p.random32 ++
        [UInt8.ofNat p.sessionId.length] ++ p.sessionId ++ storeBe16 2 ++
        storeBe16 tlsAes128GcmSha256 ++ [UInt8.ofNat 1] ++ [UInt8.ofNat 0] := by
    unfold encodeFields prefixed
    simp only [List.append_assoc]
    rfl
  rw [hsame]
  exact hputs

/-- **What `build_client_hello` writes** is the encoding of its parameters, and no length in
it was cut. -/
theorem buildClientHello_ok {p : ClientHelloParams} {cap : ℕ} {out : Bytes}
    (h : buildClientHello p cap = .ok out) :
    out = uintBytes 1 1 ++ prefixed 3 (encodeBody p) ∧ out.length ≤ cap ∧
      p.random32.length = 32 ∧ p.sessionId.length ≤ 32 ∧ 1 ≤ p.keyShare.length ∧
      (encodeBody p).length ≤ 0xffffff ∧
      ((extensionsOf p).flatMap encodeExtension).length ≤ 65535 ∧
      ∀ a, p.alpn = some a → ∀ piece ∈ offeredProtocols a.val,
        1 ≤ piece.length ∧ piece.length ≤ 255 := by
  unfold buildClientHello at h
  split at h
  · cases h
  rename_i hargs
  push Not at hargs
  obtain ⟨hrandom, hsession, hkey, -⟩ := hargs
  dsimp only at h
  cases hexts : writeHelloExtensions p ((writeHelloFields p cap).put16 0) with
  | none =>
    rw [hexts] at h
    cases h
  | some w =>
    rw [hexts] at h
    dsimp only at h
    have hfields := (puts_helloFields p cap).bytes (storeBe16 0)
    obtain ⟨hputs, hok, hpieces⟩ := writeHelloExtensions_some hexts
    have hfit := (hfields.trans hputs).fits (Nat.zero_le _)
    have hcap := (hfields.trans hputs).cap
    obtain ⟨hok', hout⟩ := hputs.out hok
    obtain ⟨-, hout'⟩ := hfields.out hok'
    obtain ⟨-, hfirst⟩ := (puts_helloFields p cap).out
      ((puts_bytes (writeHelloFields p cap) (storeBe16 0)).out hok').1
    rw [List.nil_append] at hfirst hout'
    generalize hE : (extensionsOf p).flatMap encodeExtension = E at hout hputs
    generalize hF : uintBytes 1 1 ++ uintBytes 3 0 ++ encodeFields p = F at hfirst hout'
    have hwritten : w.out = F ++ storeBe16 0 ++ E := by
      rw [hout, ← hout']
      rfl
    have hsize : w.out.length - ((writeHelloFields p cap).put16 0).out.length = E.length := by
      rw [hout, List.length_append]
      omega
    rw [hsize] at h
    split at h
    · cases h
    rename_i hmax
    -- the length of the extensions replaces the two zeros before them
    have hpatch : (w.patch (writeHelloFields p cap).out.length (storeBe16 E.length)).out =
        uintBytes 1 1 ++ uintBytes 3 0 ++ encodeBody p := by
      rw [hfirst, patch_out (b := storeBe16 E.length) w hwritten rfl, ← hF]
      unfold encodeBody prefixed
      rw [hE, storeBe16_eq]
      simp only [List.append_assoc]
    have hbody : (uintBytes 1 1 ++ uintBytes 3 0 ++ encodeBody p).length - 4 =
        (encodeBody p).length := by
      simp only [List.length_append, uintBytes_length]
      omega
    rw [hpatch, hbody] at h
    split at h
    · cases h
    rename_i hbodyMax
    cases h
    have hone : ((w.patch (writeHelloFields p cap).out.length (storeBe16 E.length)).patch 1
        (storeBe24 (encodeBody p).length)).out =
        uintBytes 1 1 ++ storeBe24 (encodeBody p).length ++ encodeBody p :=
      patch_out _ hpatch rfl
    refine ⟨?_, ?_, hrandom, by omega, by omega, by omega, by omega, hpieces⟩
    · rw [hone, storeBe24_eq, List.append_assoc]
      rfl
    · have hlen := congrArg List.length hone
      have hbodyLen : (encodeBody p).length = (encodeFields p).length + (2 + E.length) := by
        rw [encodeBody, List.length_append, prefixed_length, hE]
      have hfull := congrArg List.length hwritten
      rw [← hF] at hfull
      simp only [List.length_append, uintBytes_length, storeBe16_length, storeBe24_length]
        at hlen hfull
      rw [hlen]
      show _ ≤ cap
      rw [hcap] at hfit
      dsimp only at hfit
      omega

/-- The body is decoded as it was asked for. -/
theorem reads_body {p : ClientHelloParams} (hgroup : p.group.code < 65536)
    (hrandom : p.random32.length = 32) (hsession : p.sessionId.length ≤ 32)
    (hkey : 1 ≤ p.keyShare.length)
    (halpn : ∀ a, p.alpn = some a → ∀ piece ∈ offeredProtocols a.val,
      1 ≤ piece.length ∧ piece.length ≤ 255)
    (hlen : ((extensionsOf p).flatMap encodeExtension).length ≤ 65535) :
    Reads clientHelloBody (encodeBody p) (helloOf p) := by
  have hraw := reads_raw p.random32
  rw [hrandom] at hraw
  have hversion : Reads (uint 2) (uintBytes 2 0x0303) 0x0303 := reads_uint (by decide)
  have hid : Reads (bounded 1 0 32) (prefixed 1 p.sessionId) p.sessionId :=
    reads_bounded (by omega) (Nat.zero_le _) hsession
  have hsuites : Reads (vector 2 2 65534 (uint 2))
      (prefixed 2 ([0x1301].flatMap (uintBytes 2))) [0x1301] :=
    reads_uints (by decide) (by decide) (by decide) (by decide)
  have hnull : ∀ v ∈ [0], Reads (uint 1) (uintBytes 1 v) v ∧ uintBytes 1 v ≠ [] := by
    intro v hv
    rw [List.mem_singleton.mp hv]
    exact ⟨reads_uint (by decide), by decide⟩
  have hcompression : Reads (vector 1 1 255 (uint 1))
      (prefixed 1 ([0].flatMap (uintBytes 1))) [0] :=
    reads_vector hnull (by decide) (by decide) (by decide)
  rw [List.flatMap_singleton] at hsuites hcompression
  have hexts := reads_extensions hgroup hkey halpn hlen
  unfold encodeBody encodeFields clientHelloBody
  simp only [List.append_assoc]
  refine reads_bind hversion ?_
  refine reads_bind hraw ?_
  refine reads_bind hid ?_
  refine reads_bind hsuites ?_
  refine reads_bind hcompression ?_
  exact reads_bind_pure hexts (reads_pure _)

/-- The length that is written is that of the message, and zero on an error. -/
theorem buildClientHelloCall_eq (null : Bool) (p : ClientHelloParams) (cap : ℕ) :
    buildClientHelloCall null p cap =
      if null then (.error .invalidArgument, 0)
      else match buildClientHello p cap with
        | .ok out => (.ok out, out.length)
        | .error e => (.error e, 0) := by
  unfold buildClientHelloCall buildClientHello
  dsimp only
  split_ifs
  · rfl
  · rfl
  · cases writeHelloExtensions p ((writeHelloFields p cap).put16 0) with
    | none => rfl
    | some w =>
      dsimp only
      split_ifs <;> rfl

/-- The bytes that were written are decoded to the parameters. -/
theorem decodeClientHello_of_build {p : ClientHelloParams} {cap : ℕ} {out : Bytes}
    (hgroup : p.group = .x25519 ∨ p.group = .secp256r1)
    (hbuild : buildClientHello p cap = .ok out) :
    out.length ≤ cap ∧ decodeClientHello out = some (helloOf p) := by
  have hcode : p.group.code < 65536 := by
    rcases hgroup with h | h <;> rw [h] <;> decide
  obtain ⟨hout, hcap, hrandom, hsession, hkey, hbody, hlen, halpn⟩ := buildClientHello_ok hbuild
  refine ⟨hcap, ?_⟩
  have hreads := reads_body hcode hrandom hsession hkey halpn hlen
  have htype : Reads (uint 1) (uintBytes 1 1) 1 := reads_uint (by decide)
  have hmessage : Reads clientHelloMessage (uintBytes 1 1 ++ prefixed 3 (encodeBody p))
      (helloOf p) := by
    apply reads_bind htype
    rw [← List.nil_append (prefixed 3 _)]
    apply reads_bind (reads_require rfl)
    apply reads_bind_pure (reads_bounded (by omega) (Nat.zero_le _) hbody)
    exact reads_ofOption hreads.whole
  rw [hout]
  exact hmessage.whole

/-- **A ClientHello that is written can be decoded**: the written bytes are one message of
the grammar, with the parameters in it and no extension twice, and a call that fails reports
no bytes. -/
theorem clientHello_of_call (null : Bool) (p : ClientHelloParams) (cap : ℕ)
    (hgroup : p.group = .x25519 ∨ p.group = .secp256r1) :
    (∀ out written, buildClientHelloCall null p cap = (.ok out, written) →
      written = out.length ∧ out.length ≤ cap ∧ decodeClientHello out = some (helloOf p) ∧
        ((helloOf p).extensions.map HelloExtension.type).Nodup) ∧
    ∀ e written, buildClientHelloCall null p cap = (.error e, written) → written = 0 := by
  rw [buildClientHelloCall_eq]
  constructor
  · intro out written h
    split at h
    · cases h
    cases hbuild : buildClientHello p cap with
    | error e =>
      rw [hbuild] at h
      cases h
    | ok out' =>
      rw [hbuild] at h
      cases h
      obtain ⟨hcap, hdecode⟩ := decodeClientHello_of_build hgroup hbuild
      exact ⟨rfl, hcap, hdecode, nodup_extensionsOf p⟩
  · intro e written h
    split at h
    · cases h
      rfl
    · split at h
      · cases h
      · cases h
        rfl

/-- Parameters with every extension. -/
def fullParams : ClientHelloParams where
  random32 := List.replicate 32 7
  sessionId := [1, 2, 3]
  keyShare := List.replicate 32 9
  group := .x25519
  serverName := some ⟨ascii ['x', 'b', 'o', 'x'], by decide⟩
  alpn := some ⟨ascii ['h', '2', ',', 'h', '3', ','], by decide⟩
  cookie := [5, 5]

/-- A ClientHello with every extension is decoded. -/
theorem clientHello_of_full : ∃ out, buildClientHelloCall false fullParams 512 =
    (.ok out, out.length) ∧ decodeClientHello out = some (helloOf fullParams) := by
  have hok : (buildClientHello fullParams 512).toOption.isSome = true := by decide +kernel
  obtain ⟨out, hbuild⟩ : ∃ out, buildClientHello fullParams 512 = .ok out := by
    cases hbuild : buildClientHello fullParams 512 with
    | ok out => exact ⟨out, rfl⟩
    | error e =>
      rw [hbuild] at hok
      cases hok
  have hout : buildClientHelloCall false fullParams 512 = (.ok out, out.length) := by
    rw [buildClientHelloCall_eq, hbuild]
    rfl
  obtain ⟨-, -, hdecode, -⟩ :=
    (clientHello_of_call false fullParams 512 (Or.inl rfl)).1 out out.length hout
  exact ⟨out, hout, hdecode⟩

end XboxTls.Analysis
