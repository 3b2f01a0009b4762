import XboxTls.Analysis.ClientHelloEncoding
import XboxTls.Interface.HonestServer

/-!
# When a ClientHello is built

The writer's flag stays set as long as there is room (`Fills`), so `build_client_hello` returns
`XT_OK` exactly when its arguments are in their bounds and the message fits the buffer.
-/

set_option autoImplicit false

namespace XboxTls.Analysis

open Programs Programs.Decoder XboxTls.Model XboxTls.Interface

/-! ## A writer with room -/

/-- `w'` is `w` with `b` behind it, and the flag stays set when there is room for `b`. -/
structure Fills (w : Writer) (b : Bytes) (w' : Writer) : Prop extends Puts w b w' where
  ok : w.ok = true → w.out.length + b.length ≤ w.cap → w'.ok = true

/-- A put that fits appends its bytes. -/
theorem fills_bytes (w : Writer) (b : Bytes) : Fills w b (w.bytes b) where
  toPuts := puts_bytes w b
  ok hok hroom := by
    unfold Writer.bytes
    rw [if_neg (Nat.not_lt.mpr hroom)]
    exact hok

/-- Two puts that fit one after the other. -/
theorem Fills.trans {w w' w'' : Writer} {a b : Bytes} (h : Fills w a w') (h' : Fills w' b w'') :
    Fills w (a ++ b) w'' where
  toPuts := h.toPuts.trans h'.toPuts
  ok hok hroom := by
    rw [List.length_append] at hroom
    have hok' := h.ok hok (by omega)
    refine h'.ok hok' ?_
    rw [(h.out hok').2, List.length_append, h.cap]
    omega

/-- One more put that fits. -/
theorem Fills.bytes {w w' : Writer} {a : Bytes} (h : Fills w a w') (b : Bytes) :
    Fills w (a ++ b) (w'.bytes b) := h.trans (fills_bytes w' b)

/-- With room the check passes. -/
theorem Fills.checked {w w' : Writer} {b : Bytes} (h : Fills w b w') (hok : w.ok = true)
    (hroom : w.out.length + b.length ≤ w.cap) : w'.checked = some w' := by
  unfold Writer.checked
  rw [if_pos (h.ok hok hroom)]

/-- Protocols that fit are written behind their lengths. -/
theorem fills_pieces (pieces : List Bytes) (w : Writer) :
    Fills w (pieces.flatMap (prefixed 1))
      (pieces.foldl (fun w piece => (w.put8 piece.length).bytes piece) w) := by
  induction pieces generalizing w with
  | nil => exact ⟨puts_nil w, fun hok _ => hok⟩
  | cons piece rest ih =>
    have hpiece : Fills w (prefixed 1 piece) ((w.put8 piece.length).bytes piece) :=
      (fills_bytes w _).bytes piece
    rw [List.flatMap_cons, List.foldl_cons]
    exact hpiece.trans (ih _)

/-! ## The extensions -/

/-- The writer of extensions has room for these: it writes them, and the flag stays set. -/
def Writes (f : Writer → Option Writer) (es : List HelloExtension) : Prop :=
  ∀ w, w.ok = true → w.out.length + (es.flatMap encodeExtension).length ≤ w.cap →
    ∃ w', f w = some w' ∧ w'.ok = true ∧ w'.cap = w.cap ∧
      w'.out.length = w.out.length + (es.flatMap encodeExtension).length

/-- Nothing is written. -/
theorem writes_nil : Writes some [] := by
  intro w hok _
  exact ⟨w, rfl, hok, rfl, rfl⟩

/-- A chain of puts that are as long as an extension. -/
theorem writes_of_fills {es : List HelloExtension} {f : Writer → Writer} {b : Bytes}
    (hf : ∀ w, Fills w b (f w)) (hlen : b.length = (es.flatMap encodeExtension).length) :
    Writes (fun w => (f w).checked) es := by
  intro w hok hroom
  rw [← hlen] at hroom ⊢
  have hok' := (hf w).ok hok hroom
  refine ⟨f w, (hf w).checked hok hroom, hok', (hf w).cap, ?_⟩
  rw [((hf w).out hok').2, List.length_append]

/-- One writer after the other. -/
theorem Writes.bind {f g : Writer → Option Writer} {es es' : List HelloExtension}
    (hf : Writes f es) (hg : Writes g es') : Writes (fun w => f w >>= g) (es ++ es') := by
  intro w hok hroom
  rw [List.flatMap_append, List.length_append] at hroom ⊢
  obtain ⟨w', hw', hok', hcap', hlen'⟩ := hf w hok (by omega)
  obtain ⟨w'', hw'', hok'', hcap'', hlen''⟩ := hg w' hok' (by omega)
  refine ⟨w'', ?_, hok'', hcap''.trans hcap', by omega⟩
  dsimp only
  rw [hw']
  exact hw''

/-- The server_name extension that is asked for. -/
def serverNameOf (host : Option CString) : List HelloExtension :=
  match host with
  | some host => if host.val = [] then [] else [.serverName [host.val]]
  | none => []

/-- The ALPN extension that is asked for. -/
def alpnOf (alpn : Option CString) : List HelloExtension :=
  match alpn with
  | some alpn => if alpn.val = [] then [] else [.alpn (offeredProtocols alpn.val)]
  | none => []

/-- A server name that is not too long is written. -/
theorem writes_extSni {host : Option CString} (hhost : ∀ h, host = some h → h.val.length ≤ 65530) :
    Writes (fun w => extSni w host) (serverNameOf host) := by
  unfold serverNameOf
  cases host with
  | none => exact writes_nil
  | some host =>
    dsimp only
    unfold extSni
    dsimp only
    by_cases hempty : host.val = []
    · rw [if_pos hempty]
      simp only [hempty, List.length_nil, if_true]
      exact writes_nil
    · have hlong := hhost host rfl
      simp only [List.length_eq_zero_iff, hempty, if_false, Nat.not_lt.mpr hlong]
      refine writes_of_fills (f := fun w => _) (fun w => ((((((fills_bytes w (storeBe16 0)).bytes
        (storeBe16 (5 + host.val.length))).bytes (storeBe16 (3 + host.val.length))).bytes
        [UInt8.ofNat 0]).bytes (storeBe16 host.val.length)).bytes host.val)) ?_
      simp [encodeExtension, encodeData]
      omega

/-- A cookie that is not too long is written. -/
theorem writes_extCookie {cookie : Bytes} (hcookie : cookie.length ≤ 65535) :
    Writes (fun w => extCookie w cookie)
      (if cookie = [] then [] else [HelloExtension.cookie cookie]) := by
  unfold extCookie
  by_cases hempty : cookie = []
  · rw [if_pos hempty]
    simp only [hempty, List.length_nil, if_true]
    exact writes_nil
  · simp only [List.length_eq_zero_iff, hempty, if_false, Nat.not_lt.mpr hcookie]
    refine writes_of_fills (f := fun w => _) (fun w => (((fills_bytes w (storeBe16 0x002c)).bytes
      (storeBe16 (2 + cookie.length))).bytes (storeBe16 cookie.length)).bytes cookie) ?_
    simp [encodeExtension, encodeData]

/-- The list of protocols has a size when each is in its bounds. -/
theorem alpnListSize_total {pieces : List Bytes} (size : ℕ)
    (hpieces : ∀ piece ∈ pieces, 1 ≤ piece.length ∧ piece.length ≤ 255)
    (hsize : size + (pieces.flatMap (prefixed 1)).length ≤ 65535) :
    ∃ total, alpnListSize pieces size = some total := by
  induction pieces generalizing size with
  | nil => exact ⟨size, rfl⟩
  | cons piece rest ih =>
    obtain ⟨hlo, hhi⟩ := hpieces piece List.mem_cons_self
    rw [List.flatMap_cons, List.length_append, prefixed_length] at hsize
    unfold alpnListSize
    rw [if_neg (by omega), if_neg (by omega)]
    exact ih _ (fun p hp => hpieces p (List.mem_cons_of_mem _ hp)) (by omega)

/-- Protocols that are neither empty nor too long are written. -/
theorem writes_extAlpn {alpn : Option CString}
    (hpieces : ∀ a, alpn = some a → ∀ piece ∈ offeredProtocols a.val,
      1 ≤ piece.length ∧ piece.length ≤ 255)
    (hsize : ∀ a, alpn = some a → ((offeredProtocols a.val).flatMap (prefixed 1)).length ≤ 65535) :
    Writes (fun w => extAlpn w alpn) (alpnOf alpn) := by
  unfold alpnOf
  cases alpn with
  | none => exact writes_nil
  | some alpn =>
    dsimp only
    unfold extAlpn
    dsimp only
    by_cases hempty : alpn.val = []
    · rw [if_pos hempty]
      simp only [hempty, List.length_nil, if_true]
      exact writes_nil
    · obtain ⟨total, htotal⟩ := alpnListSize_total 0 (hpieces alpn rfl)
        ((Nat.zero_add _).trans_le (hsize alpn rfl))
      have hlist := (alpnListSize_some htotal).1
      rw [Nat.zero_add] at hlist
      simp only [List.length_eq_zero_iff, hempty, if_false, alpnPieces_eq, htotal]
      refine writes_of_fills (f := fun w => _) (fun w => (((fills_bytes w (storeBe16 0x0010)).bytes
        (storeBe16 (2 + total))).bytes (storeBe16 total)).trans
        (fills_pieces (offeredProtocols alpn.val) _)) ?_
      simp [encodeExtension, encodeData, hlist]

/-- The one version is written. -/
theorem writes_extSupportedVersions :
    Writes extSupportedVersions [.supportedVersions [0x0304]] :=
  writes_of_fills (f := fun _ => _) (fun w => (((fills_bytes w (storeBe16 0x002b)).bytes
    (storeBe16 3)).bytes [UInt8.ofNat 2]).bytes (storeBe16 0x0304)) rfl

/-- Both groups are written. -/
theorem writes_extSupportedGroups (g : NamedGroup) :
    Writes (fun w => extSupportedGroups w g) [.supportedGroups
      (if g = .x25519 then [0x001d, 0x0017] else [g.code, 0x001d])] := by
  refine writes_of_fills (f := fun w => _) (fun w => ((((fills_bytes w (storeBe16 0x000a)).bytes
    (storeBe16 6)).bytes (storeBe16 4)).bytes (storeBe16 g.code)).bytes
    (storeBe16 (if g = .x25519 then NamedGroup.secp256r1 else .x25519).code)) ?_
  split
  · rfl
  · rfl

/-- The three signature algorithms are written. -/
theorem writes_extSigAlgs : Writes extSigAlgs [.signatureAlgorithms [0x0804, 0x0809, 0x0403]] :=
  writes_of_fills (f := fun _ => _) (fun w => (((((fills_bytes w (storeBe16 0x000d)).bytes
    (storeBe16 8)).bytes (storeBe16 6)).bytes (storeBe16 0x0804)).bytes (storeBe16 0x0809)).bytes
    (storeBe16 0x0403)) rfl

/-- The key share is written. -/
theorem writes_extKeyShare (g : NamedGroup) (k : Bytes) :
    Writes (fun w => extKeyShare w g k) [.keyShare [(g.code, k)]] := by
  refine writes_of_fills (f := fun w => _) (fun w => (((((fills_bytes w (storeBe16 0x0033)).bytes
    (storeBe16 (6 + k.length))).bytes (storeBe16 (4 + k.length))).bytes (storeBe16 g.code)).bytes
    (storeBe16 k.length)).bytes k) ?_
  simp [encodeExtension, encodeData]

/-- A flag that is set passes the check. -/
theorem writes_checked : Writes (fun w => w.checked) [] := by
  intro w hok _
  exact ⟨w, if_pos hok, hok, rfl, rfl⟩

/-- A part of the extensions is no longer than all. -/
theorem length_le_extensions {p : ClientHelloParams} {e : HelloExtension}
    (h : e ∈ extensionsOf p) :
    4 + (encodeData e).length ≤ ((extensionsOf p).flatMap encodeExtension).length := by
  refine le_trans ?_ (length_le_flatMap h)
  rw [encodeExtension, List.length_append, uintBytes_length, prefixed_length]
  omega

/-- The extensions are written when they are in their bounds and there is room. -/
theorem writes_helloExtensions {p : ClientHelloParams}
    (hsize : ((extensionsOf p).flatMap encodeExtension).length ≤ 65535)
    (hpieces : ∀ a, p.alpn = some a → ∀ piece ∈ offeredProtocols a.val,
      1 ≤ piece.length ∧ piece.length ≤ 255) :
    Writes (writeHelloExtensions p) (extensionsOf p) := by
  have hhost : ∀ h, p.serverName = some h → h.val.length ≤ 65530 := by
    intro h hname
    by_cases hempty : h.val = []
    · rw [hempty]
      exact Nat.zero_le _
    · have hle := length_le_extensions (p := p) (e := .serverName [h.val]) (by
        unfold extensionsOf
        simp [hname, hempty])
      simp only [encodeData, prefixed_length, List.flatMap_cons, List.flatMap_nil,
        List.length_append, uintBytes_length, List.append_nil] at hle
      omega
  have hcookie : p.cookie.length ≤ 65535 := by
    by_cases hempty : p.cookie = []
    · rw [hempty]
      exact Nat.zero_le _
    · have hle := length_le_extensions (p := p) (e := .cookie p.cookie) (by
        unfold extensionsOf
        simp [hempty])
      simp only [encodeData, prefixed_length] at hle
      omega
  have halpn : ∀ a, p.alpn = some a →
      ((offeredProtocols a.val).flatMap (prefixed 1)).length ≤ 65535 := by
    intro a ha
    by_cases hempty : a.val = []
    · rw [hempty]
      exact Nat.zero_le _
    · have hle := length_le_extensions (p := p) (e := .alpn (offeredProtocols a.val)) (by
        unfold extensionsOf
        simp [ha, hempty])
      simp only [encodeData, prefixed_length] at hle
      omega
  have hall := (writes_extSni hhost).bind (writes_extSupportedVersions.bind
    ((writes_extSupportedGroups p.group).bind (writes_extSigAlgs.bind
      ((writes_extKeyShare p.group p.keyShare).bind ((writes_extCookie hcookie).bind
        ((writes_extAlpn hpieces halpn).bind writes_checked))))))
  have hsame : extensionsOf p = serverNameOf p.serverName ++ [.supportedVersions [0x0304],
      .supportedGroups (if p.group = .x25519 then [0x001d, 0x0017] else [p.group.code, 0x001d]),
      .signatureAlgorithms [0x0804, 0x0809, 0x0403], .keyShare [(p.group.code, p.keyShare)]] ++
      (if p.cookie = [] then [] else [.cookie p.cookie]) ++ alpnOf p.alpn := rfl
  rw [hsame]
  simp only [List.append_assoc, List.cons_append, List.nil_append, List.append_nil] at hall ⊢
  exact hall

/-! ## The message -/

/-- A patch leaves the length. -/
theorem patch_length (w : Writer) (i : ℕ) (b : Bytes) :
    (w.patch i b).out.length = w.out.length := by
  unfold Writer.patch
  split
  · rfl
  · simp only [List.length_append, List.length_take, List.length_drop]
    omega

/-- The length of the message is that of its parts. -/
theorem encodeHello_length (p : ClientHelloParams) : (encodeHello p).length =
    15 + p.random32.length + p.sessionId.length +
      ((extensionsOf p).flatMap encodeExtension).length := by
  simp only [encodeHello, encodeBody, encodeFields, List.length_append, uintBytes_length,
    prefixed_length]
  omega

/-- A ClientHello that meets every check is built. -/
theorem buildClientHello_of_fits {p : ClientHelloParams} {cap : ℕ}
    (hcap : (encodeHello p).length ≤ cap) (hrandom : p.random32.length = 32)
    (hsession : p.sessionId.length ≤ 32) (hkey : 1 ≤ p.keyShare.length)
    (hsize : ((extensionsOf p).flatMap encodeExtension).length ≤ 65535)
    (hpieces : ∀ a, p.alpn = some a → ∀ piece ∈ offeredProtocols a.val,
      1 ≤ piece.length ∧ piece.length ≤ 255) : buildClientHello p cap = .ok (encodeHello p) := by
  have hlength := encodeHello_length p
  have hshare : 10 + p.keyShare.length ≤ 65535 := by
    have hle := length_le_extensions (p := p) (e := .keyShare [(p.group.code, p.keyShare)]) (by
      unfold extensionsOf
      simp)
    simp only [encodeData, prefixed_length, List.flatMap_cons, List.flatMap_nil,
      List.length_append, uintBytes_length, List.append_nil] at hle
    omega
  have hfields : Fills ⟨cap, [], true⟩ (uintBytes 1 1 ++ uintBytes 3 0 ++ encodeFields p)
      (writeHelloFields p cap) := by
    have hputs := (((((((((fills_bytes ⟨cap, [], true⟩ [UInt8.ofNat hsClientHello.toNat]).bytes
      (storeBe24 0)).bytes (storeBe16 0x0303)).bytes p.random32).bytes
      [UInt8.ofNat p.sessionId.length]).bytes p.sessionId).bytes (storeBe16 2)).bytes
      (storeBe16 tlsAes128GcmSha256)).bytes [UInt8.ofNat 1]).bytes [UInt8.ofNat 0]
    refine ⟨puts_helloFields p cap, fun hok hroom => hputs.ok hok ?_⟩
    simp only [encodeFields, List.length_append, uintBytes_length, prefixed_length,
      storeBe16_length, storeBe24_length, List.length_singleton] at hroom ⊢
    omega
  have hstart := hfields.bytes (storeBe16 0)
  have hlen : (uintBytes 1 1 ++ uintBytes 3 0 ++ encodeFields p ++ storeBe16 0).length +
      ((extensionsOf p).flatMap encodeExtension).length = (encodeHello p).length := by
    simp only [encodeHello, encodeBody, List.length_append, uintBytes_length, prefixed_length,
      storeBe16_length]
    omega
  have hok := hstart.ok rfl ((Nat.zero_add _).trans_le (le_trans (by omega) hcap))
  have hwritten : ((writeHelloFields p cap).bytes (storeBe16 0)).out.length =
      (uintBytes 1 1 ++ uintBytes 3 0 ++ encodeFields p ++ storeBe16 0).length := by
    rw [(hstart.out hok).2, List.nil_append]
  have hsameCap : ((writeHelloFields p cap).bytes (storeBe16 0)).cap = cap := hstart.cap
  obtain ⟨w, hw, -, -, hwlen⟩ := writes_helloExtensions hsize hpieces _ hok
    (by rw [hwritten, hsameCap]; omega)
  obtain ⟨out, hout⟩ : ∃ out, buildClientHello p cap = .ok out := by
    unfold buildClientHello
    rw [if_neg (by omega)]
    dsimp only
    unfold Writer.put16
    rw [hw]
    dsimp only
    rw [if_neg (by omega), if_neg (by rw [patch_length]; omega)]
    exact ⟨_, rfl⟩
  rw [hout, (buildClientHello_ok hout).1]
  rfl

/-- **When a ClientHello is built.**  `build_client_hello` returns `XT_OK` exactly when the
random bytes are 32, the session id has at most 32, there is a key share, every protocol name has 1
to 255 bytes, the extensions have at most 65535 bytes and the message fits the buffer; and then
it writes that message. -/
theorem buildClientHello_iff (p : ClientHelloParams) (cap : ℕ) (out : Bytes) :
    buildClientHello p cap = .ok out ↔ out = encodeHello p ∧ (encodeHello p).length ≤ cap ∧
      p.random32.length = 32 ∧ p.sessionId.length ≤ 32 ∧ 1 ≤ p.keyShare.length ∧
      ((extensionsOf p).flatMap encodeExtension).length ≤ 65535 ∧
      ∀ a, p.alpn = some a → ∀ piece ∈ offeredProtocols a.val,
        1 ≤ piece.length ∧ piece.length ≤ 255 := by
  constructor
  · intro h
    obtain ⟨hout, hcap, hrandom, hsession, hkey, -, hsize, hpieces⟩ := buildClientHello_ok h
    rw [hout] at hcap
    exact ⟨hout, hcap, hrandom, hsession, hkey, hsize, hpieces⟩
  · rintro ⟨rfl, hcap, hrandom, hsession, hkey, hsize, hpieces⟩
    exact buildClientHello_of_fits hcap hrandom hsession hkey hsize hpieces

/-! ## The hello of a configuration -/

/-- The list of protocols is hardly longer than the string. -/
theorem pieces_length (fuel : ℕ) (b : Bytes) :
    ((alpnPieces.go fuel b).flatMap (prefixed 1)).length ≤ b.length + 1 := by
  induction fuel generalizing b with
  | zero => exact Nat.zero_le _
  | succ fuel ih =>
    unfold alpnPieces.go
    by_cases hempty : b.length = 0
    · rw [if_pos hempty]
      exact Nat.zero_le _
    rw [if_neg hempty]
    dsimp only
    have hle : (b.takeWhile fun x => x ≠ UInt8.ofNat 44).length ≤ b.length :=
      (List.takeWhile_prefix _).length_le
    generalize (b.takeWhile fun x => x ≠ UInt8.ofNat 44) = piece at hle ⊢
    rw [List.flatMap_cons, List.length_append, prefixed_length]
    by_cases hall : b.length ≤ piece.length + 1
    · rw [List.drop_eq_nil_of_le hall]
      have hnil : ((alpnPieces.go fuel []).flatMap (prefixed 1)).length = 0 := by
        cases fuel with
        | zero => rfl
        | succ fuel => rfl
      omega
    · have hrest := ih (b.drop (piece.length + 1))
      rw [List.length_drop] at hrest
      omega

/-- The server name adds at most nine bytes to the host name. -/
theorem serverNameOf_length (host : Option CString) :
    ((serverNameOf host).flatMap encodeExtension).length ≤
      9 + host.elim 0 fun h => h.val.length := by
  cases host with
  | none => exact Nat.zero_le _
  | some host =>
    unfold serverNameOf
    dsimp only
    split
    · exact Nat.zero_le _
    · simp only [List.flatMap_cons, List.flatMap_nil, List.append_nil, encodeExtension, encodeData,
        List.length_append, uintBytes_length, prefixed_length, Option.elim_some]
      omega

/-- The protocols add at most seven bytes to the string. -/
theorem alpnOf_length (alpn : Option CString) :
    ((alpnOf alpn).flatMap encodeExtension).length ≤ 7 + alpn.elim 0 fun a => a.val.length := by
  cases alpn with
  | none => exact Nat.zero_le _
  | some alpn =>
    unfold alpnOf
    dsimp only
    split
    · exact Nat.zero_le _
    · have hpieces := pieces_length alpn.val.length alpn.val
      rw [show alpnPieces.go alpn.val.length alpn.val = alpnPieces alpn.val from rfl,
        alpnPieces_eq] at hpieces
      simp only [List.flatMap_cons, List.flatMap_nil, List.append_nil, encodeExtension, encodeData,
        List.length_append, uintBytes_length, prefixed_length, Option.elim_some]
      omega

/-- A ClientHello for a configuration that fits is built into the 2048 bytes of the client. -/
theorem exists_clientHello {config : ClientConfig} (hfits : HelloFits config)
    {p : ClientHelloParams} (hname : p.serverName = config.hostname) (halpn : p.alpn = config.alpn)
    (hrandom : p.random32.length = 32) (hsession : p.sessionId.length = 32)
    (hlo : 1 ≤ p.keyShare.length) (hhi : p.keyShare.length ≤ 65) (hcookie : p.cookie.length ≤ 512) :
    ∃ ch, buildClientHello p 2048 = .ok ch ∧ ch.length ≤ 2048 := by
  have hsame : extensionsOf p = serverNameOf p.serverName ++ [.supportedVersions [0x0304],
      .supportedGroups (if p.group = .x25519 then [0x001d, 0x0017] else [p.group.code, 0x001d]),
      .signatureAlgorithms [0x0804, 0x0809, 0x0403], .keyShare [(p.group.code, p.keyShare)]] ++
      (if p.cookie = [] then [] else [.cookie p.cookie]) ++ alpnOf p.alpn := rfl
  have hfixed : ([.supportedVersions [0x0304],
      .supportedGroups (if p.group = .x25519 then [0x001d, 0x0017] else [p.group.code, 0x001d]),
      .signatureAlgorithms [0x0804, 0x0809, 0x0403],
      .keyShare [(p.group.code, p.keyShare)]].flatMap encodeExtension).length =
      39 + p.keyShare.length := by
    by_cases hgroup : p.group = .x25519
    all_goals simp only [hgroup, if_true, if_false, List.flatMap_cons, List.flatMap_nil,
      List.append_nil, encodeExtension, encodeData, List.length_append, uintBytes_length,
      prefixed_length]
    all_goals omega
  have hcookies : ((if p.cookie = [] then [] else [HelloExtension.cookie p.cookie]).flatMap
      encodeExtension).length ≤ 518 := by
    split
    · exact Nat.zero_le _
    · simp only [List.flatMap_cons, List.flatMap_nil, List.append_nil, encodeExtension, encodeData,
        List.length_append, uintBytes_length, prefixed_length]
      omega
  have htotal := hfits.total
  rw [← hname, ← halpn] at htotal
  have hsize : ((extensionsOf p).flatMap encodeExtension).length ≤ 1969 := by
    have hhost := serverNameOf_length p.serverName
    have hprotocols := alpnOf_length p.alpn
    rw [hsame, List.flatMap_append, List.flatMap_append, List.flatMap_append, List.length_append,
      List.length_append, List.length_append, hfixed]
    omega
  have hlength := encodeHello_length p
  refine ⟨encodeHello p, buildClientHello_of_fits (by omega) hrandom (by omega) hlo (by omega) ?_,
    by omega⟩
  intro a ha piece hpiece
  rw [← alpnPieces_eq] at hpiece
  exact hfits.pieces a (halpn ▸ ha) piece hpiece

end XboxTls.Analysis
