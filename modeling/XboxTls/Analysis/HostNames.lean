import XboxTls.Analysis.DerElements
import XboxTls.Interface.HostNames
import XboxTls.Programs.Prog

/-!
# The host name check

`dns_equal` decides `NameMatches` (`dnsEqual_iff`), and the loop of `x509_verify_hostname`
looks at one element after the other until one of them matches (`verifyHostnameLoop_iff`).
-/

set_option autoImplicit false

namespace XboxTls.Analysis

open Programs XboxTls.Model XboxTls.Interface

/-! ## Letters -/

/-- Only the capital letters are changed. -/
theorem asciiLower_toNat (a : UInt8) : (asciiLower a).toNat =
    if 65 ≤ a.toNat ∧ a.toNat ≤ 90 then a.toNat + 32 else a.toNat := by
  unfold asciiLower
  have hfirst : (65 : UInt8).toNat = 65 := rfl
  have hlast : (90 : UInt8).toNat = 90 := rfl
  have hstep : (32 : UInt8).toNat = 32 := rfl
  simp only [UInt8.le_iff_toNat_le, hfirst, hlast]
  split
  · rw [UInt8.toNat_add, hstep]
    omega
  · rfl

/-- Letters become the same exactly where they differ in case only. -/
theorem asciiLower_eq_iff (a b : UInt8) : asciiLower a = asciiLower b ↔ SameLetter a b := by
  have ha := asciiLower_toNat a
  have hb := asciiLower_toNat b
  unfold SameLetter
  rw [← UInt8.toNat_inj, ← UInt8.toNat_inj, ha, hb]
  split <;> split <;> omega

/-- The comparison ignores the case and nothing else. -/
theorem equalIgnoreCase_iff (a b : Bytes) : equalIgnoreCase a b = true ↔ SameIgnoringCase a b := by
  unfold equalIgnoreCase SameIgnoringCase
  rw [decide_eq_true_iff]
  constructor
  · intro h
    induction a generalizing b with
    | nil =>
      obtain rfl := List.map_eq_nil_iff.mp h.symm
      exact .nil
    | cons x a ih =>
      cases b with
      | nil => cases h
      | cons y b =>
        obtain ⟨hfirst, hrest⟩ := List.cons.inj h
        exact .cons ((asciiLower_eq_iff x y).mp hfirst) (ih b hrest)
  · intro h
    induction h with
    | nil => rfl
    | cons hfirst _ ih => rw [List.map_cons, List.map_cons, (asciiLower_eq_iff _ _).mpr hfirst, ih]

/-- Characters before the letters have no other case. -/
theorem sameLetter_eq_iff {a b c : UInt8} (h : SameLetter a b) (hc : c.toNat < 65) :
    a = c ↔ b = c := by
  rw [← UInt8.toNat_inj, ← UInt8.toNat_inj]
  obtain rfl | h | h := h
  · rfl
  · omega
  · omega

/-- A byte that is no letter is in both strings or in neither. -/
theorem same_mem_iff {a b : Bytes} (h : SameIgnoringCase a b) {c : UInt8}
    (hc : c.toNat < 65) : c ∈ a ↔ c ∈ b := by
  induction h with
  | nil => rfl
  | cons hfirst _ ih =>
    rw [List.mem_cons, List.mem_cons, ih, eq_comm, sameLetter_eq_iff hfirst hc, eq_comm]

/-- The dots are not changed. -/
theorem same_count_dot {a b : Bytes} (h : SameIgnoringCase a b) :
    a.count dot = b.count dot := by
  induction h with
  | nil => rfl
  | cons hfirst _ ih =>
    have hdot : _ = dot ↔ _ = dot := sameLetter_eq_iff hfirst (by decide)
    simp only [List.count_cons, ih, beq_iff_eq, hdot]

/-- A split at a byte that is no letter is one of the other string. -/
theorem same_split {front back host : Bytes} {c : UInt8}
    (h : SameIgnoringCase (front ++ c :: back) host) (hc : c.toNat < 65) :
    ∃ front' back', host = front' ++ c :: back' ∧ SameIgnoringCase back back' := by
  induction front generalizing host with
  | nil =>
    cases h with
    | cons hfirst hrest =>
      obtain rfl := (sameLetter_eq_iff hfirst hc).mp rfl
      exact ⟨[], _, rfl, hrest⟩
  | cons x front ih =>
    cases h with
    | cons _ hrest =>
      obtain ⟨front', back', rfl, hback⟩ := ih hrest
      exact ⟨_ :: front', back', rfl, hback⟩

/-! ## Names -/

/-- The host name up to its first dot. -/
theorem takeWhile_label {label rest : Bytes} (h : dot ∉ label) :
    (label ++ dot :: rest).takeWhile (· ≠ 46) = label := by
  rw [List.takeWhile_append_of_pos]
  · simp [dot]
  · intro b hb
    refine decide_eq_true fun heq => h ?_
    rwa [show dot = b from heq.symm]

/-- A host name with a dot is its first label, the dot and the rest. -/
theorem exists_label {host : Bytes} (h : (host.takeWhile (· ≠ 46)).length ≠ host.length) :
    host = host.takeWhile (· ≠ 46) ++ dot :: host.drop ((host.takeWhile (· ≠ 46)).length + 1) ∧
      dot ∉ host.takeWhile (· ≠ 46) := by
  have hsplit := List.takeWhile_append_dropWhile (p := (· ≠ 46)) (l := host)
  constructor
  · cases hrest : host.dropWhile (· ≠ 46) with
    | nil =>
      rw [hrest, List.append_nil] at hsplit
      exact absurd (congrArg List.length hsplit) h
    | cons c rest =>
      have hc := List.head?_dropWhile_not (· ≠ (46 : UInt8)) host
      rw [hrest] at hc
      have hdot : c = dot := by
        have hequal : c = 46 := by simpa using hc
        exact hequal
      rw [hrest, hdot] at hsplit
      generalize host.takeWhile (· ≠ 46) = label at hsplit
      rw [← hsplit]
      simp
  · intro hmem
    have hne := List.mem_takeWhile_imp hmem
    simp [dot] at hne

/-- The code's test finds the names `*.` with something behind. -/
theorem wildcard_iff (name : Bytes) :
    (name.length > 2 ∧ byteAt name 0 = 42 ∧ byteAt name 1 = 46) ↔
      ∃ suffix, name = asterisk :: dot :: suffix ∧ suffix ≠ [] := by
  constructor
  · rintro ⟨hlong, hstar, hdot⟩
    obtain _ | ⟨a, _ | ⟨b, suffix⟩⟩ := name
    · simp at hlong
    · simp at hlong
    · obtain rfl : a = asterisk := hstar
      obtain rfl : b = dot := hdot
      refine ⟨suffix, rfl, ?_⟩
      rintro rfl
      simp at hlong
  · rintro ⟨suffix, rfl, hne⟩
    have := List.length_pos_of_ne_nil hne
    refine ⟨?_, rfl, rfl⟩
    simp only [List.length_cons]
    omega

/-- The branch of the code for a name with a wildcard. -/
theorem suffix_iff (host : CString) {suffix : Bytes} (hne : suffix ≠ []) :
    (let label := host.val.takeWhile (· ≠ 46)
      if label.length = host.val.length ∨ label.length = 0 then false
      else
        let rest := host.val.drop (label.length + 1)
        if rest.length ≠ (asterisk :: dot :: suffix).length - 2 then false
        else equalIgnoreCase ((asterisk :: dot :: suffix).drop 2) rest) = true ↔
      WildcardMatches (asterisk :: dot :: suffix) host.val := by
  dsimp only
  constructor
  · intro h
    split at h
    · cases h
    next hlabel =>
    split at h
    · cases h
    have hdotted : (host.val.takeWhile (· ≠ 46)).length ≠ host.val.length :=
      fun h => hlabel (.inl h)
    obtain ⟨hsplit, hnot⟩ := exists_label hdotted
    refine ⟨_, suffix, _, rfl, hne, hsplit, ?_, hnot, (equalIgnoreCase_iff _ _).mp h⟩
    intro hnil
    exact hlabel (.inr (by rw [hnil, List.length_nil]))
  · rintro ⟨label, suffix', rest, hname, -, hhost, hlabel, hnot, hsame⟩
    obtain rfl : suffix = suffix' := by simpa using hname
    have hlength := List.Forall₂.length_eq hsame
    have hpos := List.length_pos_of_ne_nil hlabel
    rw [hhost, takeWhile_label hnot]
    have hdrop : (label ++ dot :: rest).drop (label.length + 1) = rest := by simp
    rw [hdrop, if_neg (by simp; omega), if_neg (by simp; omega)]
    exact (equalIgnoreCase_iff _ _).mpr hsame

/-- **The comparison of the code** decides whether the name is one of the host. -/
theorem dnsEqual_iff (name : Bytes) (host : CString) :
    dnsEqual name host = true ↔ NameMatches name host.val := by
  unfold dnsEqual NameMatches
  by_cases hequal : SameIgnoringCase name host.val
  · have hlength : name.length = host.val.length := List.Forall₂.length_eq hequal
    rw [if_pos ⟨hlength, (equalIgnoreCase_iff _ _).mpr hequal⟩]
    simp [hequal]
  · have hdiffer : ¬ (name.length = host.val.length ∧ equalIgnoreCase name host.val = true) :=
      fun h => hequal ((equalIgnoreCase_iff _ _).mp h.2)
    rw [if_neg hdiffer]
    simp only [hequal, false_or]
    by_cases hwild : name.length > 2 ∧ byteAt name 0 = 42 ∧ byteAt name 1 = 46
    · rw [if_pos hwild]
      obtain ⟨suffix, rfl, hne⟩ := (wildcard_iff name).mp hwild
      exact suffix_iff host hne
    · rw [if_neg hwild]
      simp only [Bool.false_eq_true, false_iff]
      rintro ⟨label, suffix, rest, rfl, hne, -⟩
      exact hwild ((wildcard_iff _).mpr ⟨suffix, rfl, hne⟩)

/-! ## The walk over the elements -/

/-- An element takes at least one byte. -/
theorem element_encode_length_pos (e : Element) : 0 < e.encode.length := by
  unfold Element.encode
  rw [derEncode_length]
  omega

/-- The front of a string is one element at most. -/
theorem element_encode_inj {e e' : Element} {rest rest' : Bytes}
    (h : e.encode ++ rest = e'.encode ++ rest') : e = e' ∧ rest = rest' := by
  have hread := @readTlv_of_drop (e.encode ++ rest) 0 _ _ _ e.bound rfl
  have hread' := @readTlv_of_drop (e'.encode ++ rest') 0 _ _ _ e'.bound rfl
  rw [h, hread'] at hread
  obtain ⟨htag, -, hcontent, -⟩ := DerTlv.mk.inj (Except.ok.inj hread)
  have hsame : e' = e := by
    cases e
    cases e'
    cases htag
    cases hcontent
    rfl
  subst hsame
  exact ⟨rfl, List.append_cancel_left h⟩

/-- Bytes that start with an element: whether it or a later one is a name of the host. -/
theorem namesHost_cons (e : Element) (rest host : Bytes) :
    NamesHost (e.encode ++ rest) host ↔
      (e.tag = 0x82 ∧ NameMatches e.content host) ∨ NamesHost rest host := by
  constructor
  · rintro ⟨run, name, tail, hsplit, htag, hname⟩
    cases run with
    | nil =>
      obtain ⟨rfl, -⟩ := element_encode_inj hsplit
      exact .inl ⟨htag, hname⟩
    | cons e' run =>
      rw [List.flatMap_cons, List.append_assoc, List.append_assoc] at hsplit
      obtain ⟨rfl, hrest⟩ := element_encode_inj hsplit
      exact .inr ⟨run, name, tail, by rw [hrest, List.append_assoc], htag, hname⟩
  · rintro (⟨htag, hname⟩ | ⟨run, name, tail, rfl, htag, hname⟩)
    · exact ⟨[], e, rest, rfl, htag, hname⟩
    · exact ⟨e :: run, name, tail, by simp, htag, hname⟩

/-- No names name no host. -/
theorem not_namesHost_nil (host : Bytes) : ¬ NamesHost [] host := by
  rintro ⟨run, name, rest, hsplit, -, -⟩
  have hpos := element_encode_length_pos name
  have hlength := congrArg List.length hsplit
  simp only [List.length_append, List.length_nil] at hlength
  omega

/-- The loop finds a name of the host from `p` on exactly when there is one. -/
theorem verifyHostnameLoop_iff (san : Bytes) (host : CString) (fuel p : ℕ)
    (hfuel : (san.drop p).length ≤ fuel) :
    verifyHostnameLoop san host fuel p = .ok () ↔ NamesHost (san.drop p) host.val := by
  induction fuel generalizing p with
  | zero =>
    have hnil := List.eq_nil_of_length_eq_zero (Nat.le_zero.mp hfuel)
    rw [hnil]
    simp [verifyHostnameLoop, not_namesHost_nil]
  | succ fuel ih =>
    unfold verifyHostnameLoop
    by_cases hp : p < san.length
    · rw [if_pos hp]
      cases hread : derTlv san p with
      | error e =>
        rw [except_error_bind]
        simp only [reduceCtorEq, false_iff]
        rintro ⟨run, name, rest, hsplit, -⟩
        obtain ⟨e', tail, hfirst⟩ : ∃ (e' : Element) (tail : Bytes),
            san.drop p = e'.encode ++ tail := by
          cases run with
          | nil => exact ⟨name, rest, hsplit⟩
          | cons e' run =>
            refine ⟨e', run.flatMap Element.encode ++ name.encode ++ rest, ?_⟩
            rw [hsplit, List.flatMap_cons, List.append_assoc, List.append_assoc, List.append_assoc]
        have hok : derTlv san p = _ := readTlv_of_drop e'.bound hfirst
        rw [hread] at hok
        cases hok
      | ok t =>
        obtain ⟨hbound, -, hsplit⟩ := readTlv_encoded hread
        have hshorter : (san.drop t.next).length ≤ fuel := by
          have hlength := congrArg List.length hsplit
          rw [List.length_append, derEncode_length] at hlength
          omega
        have hcons := namesHost_cons ⟨t.tag, t.value, hbound⟩ (san.drop t.next) host.val
        unfold Element.encode at hcons
        rw [except_ok_bind, hsplit, hcons, ← ih t.next hshorter, ← dnsEqual_iff]
        split
        · next hfound => simp [hfound, pure, Except.pure]
        · next hother => simp [hother]
    · rw [if_neg hp, List.drop_eq_nil_of_le (Nat.le_of_not_lt hp)]
      simp [not_namesHost_nil]

/-! ## The main result -/

/-- A host name has no zero, so a name with one matches none. -/
theorem not_zero_of_matches {name : Bytes} {host : CString} (h : NameMatches name host.val) :
    (0 : UInt8) ∉ name := by
  obtain hsame | ⟨label, suffix, rest, rfl, -, hhost, -, -, hsame⟩ := h
  · rw [same_mem_iff hsame (by decide)]
    exact host.property
  · have hzero : (0 : UInt8) ∉ rest := by
      intro hmem
      refine host.property ?_
      rw [hhost]
      exact List.mem_append_right _ (List.mem_cons_of_mem _ hmem)
    rw [← same_mem_iff hsame (by decide)] at hzero
    simp [asterisk, dot, hzero]

/-- A `*` that is not the whole first label stands for itself. -/
theorem literal_star_of_matches {front back host : Bytes}
    (h : NameMatches (front ++ asterisk :: back) host)
    (hfirst : ¬ (front = [] ∧ back.head? = some dot)) :
    ∃ front' back', host = front' ++ asterisk :: back' ∧ SameIgnoringCase back back' := by
  obtain hsame | ⟨label, suffix, rest, hname, -, rfl, -, -, hsame⟩ := h
  · exact same_split hsame (by decide)
  · obtain _ | ⟨a, _ | ⟨b, front⟩⟩ := front
    · obtain ⟨-, rfl⟩ := List.cons.inj hname
      exact absurd ⟨rfl, rfl⟩ hfirst
    · obtain ⟨-, hsecond⟩ := List.cons.inj hname
      cases hsecond
    · obtain ⟨-, hsecond⟩ := List.cons.inj hname
      obtain ⟨-, rfl⟩ := List.cons.inj hsecond
      obtain ⟨front', back', rfl, hback⟩ := same_split hsame (by decide)
      exact ⟨label ++ dot :: front', back', by simp, hback⟩

/-- A name that matches has as many labels as the host. -/
theorem labelCount_of_matches {name host : Bytes} (h : NameMatches name host) :
    labelCount name = labelCount host := by
  unfold labelCount
  obtain hsame | ⟨label, suffix, rest, rfl, -, rfl, -, hnot, hsame⟩ := h
  · rw [same_count_dot hsame]
  · rw [List.count_append, List.count_eq_zero_of_not_mem hnot, List.count_cons, List.count_cons,
      same_count_dot hsame, List.count_cons]
    simp [asterisk, dot]

/-- **The host name check**: it succeeds exactly when the elements of the subjectAltName, up to a
dNSName that matches, are well formed.  A name with a zero matches nothing, a `*` that is not the
whole first label matches a `*` only, and the numbers of labels agree. -/
theorem verifyHostname_iff (cert : X509CertificateView) (host : CString) {san : Bytes}
    (hsan : cert.subjectAltName = some san) (hhost : host.val ≠ []) :
    (x509VerifyHostname cert host = .ok () ↔ NamesHost san host.val) ∧
    ∀ name, NameMatches name host.val →
      (0 : UInt8) ∉ name ∧ labelCount name = labelCount host.val ∧
      ∀ front back, name = front ++ asterisk :: back → ¬ (front = [] ∧ back.head? = some dot) →
        ∃ front' back', host.val = front' ++ asterisk :: back' ∧ SameIgnoringCase back back' := by
  constructor
  · have hlength : ¬ host.val.length = 0 := fun h => hhost (List.eq_nil_of_length_eq_zero h)
    unfold x509VerifyHostname
    rw [if_neg hlength, hsan]
    exact verifyHostnameLoop_iff san host san.length 0 (Nat.le_refl _)
  · intro name hname
    refine ⟨not_zero_of_matches hname, labelCount_of_matches hname, ?_⟩
    rintro front back rfl hfirst
    exact literal_star_of_matches hname hfirst

/-- The dNSName `*.a`. -/
def wildcardName : Element := ⟨0x82, [42, 46, 97], by decide⟩

/-- It is a name of the host `b.A`. -/
theorem verifyHostname_iff_wildcard :
    x509VerifyHostname { X509CertificateView.empty with subjectAltName := some wildcardName.encode }
      ⟨[98, 46, 65], by decide⟩ = .ok () := by
  refine (verifyHostname_iff _ _ rfl (by decide)).1.mpr ⟨[], wildcardName, [], ?_, rfl, .inr ?_⟩
  · simp
  · exact ⟨[98], [97], [65], rfl, by simp, rfl, by simp, by decide,
      .cons (by simp [SameLetter]) .nil⟩

end XboxTls.Analysis
