import Keychain.Keys.WritePEM

namespace keychain.keys

/-- The file has the lines of a label, and between them lines that decode to
    the blob. -/
def Carries (label : Label) (der file : List UInt8) : Prop :=
  ∃ lines : List (List UInt8), base64.decode lines.flatten = some der ∧ file = pem_text label lines

/-- The loop changes the two labels of the text and nothing else in it, and the
    length goes with it. -/
def RewritesLabels (pem : Pem) : Prop :=
  ∃ lines rest back,
    pem = ⟨(pem_text .ec_private_key lines).length, pem_text .ec_private_key lines ++ rest⟩ ∧
    rewrite_loop (pem.pemBuf.length + 1) pem =
      some ⟨(pem_text .private_key lines).length, pem_text .private_key lines ++ back⟩

/-- What stands behind the text is a string in which the loop finds nothing. -/
def Clean (rest : List UInt8) : Prop :=
  ∃ run, c_string rest = some run ∧ ¬ ascii "EC PRIVATE KEY" <:+: run

/-- The lines of a body hold characters of the encoding only. -/
def Body (lines : List (List UInt8)) : Prop :=
  ∀ ch ∈ lines.flatten, base64.IsDigit ch

section Body

variable {lines : List (List UInt8)} {ch : UInt8}

theorem body_of_decode {der : List UInt8} (h : base64.decode lines.flatten = some der) : Body lines :=
  base64.isDigit_of_decode h

theorem body_of_encode {der : List UInt8} (h : lines.flatten = base64.encode der) : Body lines := by
  apply body_of_decode
  rw [h]
  exact base64.decode_encode der

theorem Body.not_mem_line (h : Body lines) (hvalue : base64.value ch = none) (hpad : ch ≠ base64.pad)
    {line : List UInt8} (hline : line ∈ lines) : ch ∉ line := by
  intro hch
  rcases h ch (List.mem_flatten_of_mem hline hch) with hdigit | hfill
  · exact hdigit hvalue
  · exact hpad hfill

theorem Body.not_mem_text (h : Body lines) (hvalue : base64.value ch = none) (hpad : ch ≠ base64.pad)
    (hnewline : ch ≠ newline) : ch ∉ body_text lines := by
  intro hmem
  obtain ⟨line, hline, hch⟩ := List.mem_flatMap.mp hmem
  rcases List.mem_append.mp hch with hinside | hend
  · exact h.not_mem_line hvalue hpad hline hinside
  · exact hnewline (List.mem_singleton.mp hend)

theorem Body.zero_not_mem (h : Body lines) (label : Label) : 0 ∉ pem_text label lines := by
  have hbegin : 0 ∉ begin_line label ++ [newline] := by cases label <;> decide
  have hend : 0 ∉ end_line label ++ [newline] := by cases label <;> decide
  have hbody : 0 ∉ body_text lines := h.not_mem_text rfl (by decide) (by decide)
  rw [pem_text]
  exact List.not_mem_append hbegin (List.not_mem_append hbody hend)

/-- The word has a space in it, and no line of a body has one. -/
theorem Body.passes (h : Body lines) :
    substring.Passes (ascii "EC PRIVATE KEY") (body_text lines) := by
  apply substring.Passes.flatMap
  intro line hline
  apply substring.passes_line (by decide)
  intro hword
  have hspace : ' '.toUInt8 ∈ ascii "EC PRIVATE KEY" := by decide
  exact h.not_mem_line rfl (by decide) hline (hword.subset hspace)

theorem passes_begin_line :
    substring.Passes (ascii "EC PRIVATE KEY") (begin_line .private_key ++ [newline]) := by
  apply substring.passes_line (by decide)
  exact substring.find_eq_none_iff.mp rfl

theorem passes_end_line :
    substring.Passes (ascii "EC PRIVATE KEY") (end_line .private_key ++ [newline]) := by
  apply substring.passes_line (by decide)
  exact substring.find_eq_none_iff.mp rfl

theorem Body.passes_pem_text (h : Body lines) :
    substring.Passes (ascii "EC PRIVATE KEY") (pem_text .private_key lines) :=
  passes_begin_line.append (h.passes.append passes_end_line)

/-- The text between the two labels and behind the second. -/
theorem pem_text_split (lines : List (List UInt8)) (run : List UInt8) :
    pem_text .ec_private_key lines ++ run =
        ascii "-----BEGIN " ++ ascii "EC PRIVATE KEY" ++ (ascii "-----" ++ [newline] ++
          (body_text lines ++ (end_line .ec_private_key ++ [newline])) ++ run) ∧
      ascii "-----BEGIN " ++ ascii "PRIVATE KEY" ++ (ascii "-----" ++ [newline] ++
          (body_text lines ++ (end_line .ec_private_key ++ [newline])) ++ run) =
        begin_line .private_key ++ [newline] ++ body_text lines ++ ascii "-----END " ++
          ascii "EC PRIVATE KEY" ++ (ascii "-----" ++ [newline] ++ run) ∧
      begin_line .private_key ++ [newline] ++ body_text lines ++ ascii "-----END " ++
          ascii "PRIVATE KEY" ++ (ascii "-----" ++ [newline] ++ run) =
        pem_text .private_key lines ++ run := by
  simp [pem_text, begin_line, end_line, Label.header]

/-- The first two rounds change the two labels. -/
theorem rewrite_loop_labels (h : Body lines) {run : List UInt8} (hrun : 0 ∉ run) (fuel : Nat)
    (ret : Int) (tail : List UInt8) : ∃ junk,
    rewrite_loop (fuel + 2) ⟨ret, pem_text .ec_private_key lines ++ run ++ 0 :: tail⟩ =
      rewrite_loop fuel ⟨ret - 6, pem_text .private_key lines ++ run ++ 0 :: junk⟩ := by
  obtain ⟨hnone, hfirst, hboth⟩ := pem_text_split lines run
  have hzero : 0 ∉ pem_text .ec_private_key lines ++ run := List.not_mem_append (h.zero_not_mem _) hrun
  rw [hnone] at hzero ⊢
  obtain ⟨junk, hround⟩ := rewrite_loop_round hzero rfl (fuel + 1) ret tail
  have hzero' := zero_not_mem_taken hzero
  rw [hfirst] at hround hzero'
  have hsearch : strstr (begin_line .private_key ++ [newline] ++ body_text lines ++ ascii "-----END " ++
      ascii "EC PRIVATE KEY" ++ (ascii "-----" ++ [newline] ++ run)) (ascii "EC PRIVATE KEY") =
        some (begin_line .private_key ++ [newline] ++ body_text lines ++ ascii "-----END ").length := by
    have hword : substring.find (ascii "EC PRIVATE KEY") (ascii "-----END " ++
        ascii "EC PRIVATE KEY" ++ (ascii "-----" ++ [newline] ++ run)) =
          some (ascii "-----END ").length := rfl
    have hpasses := (passes_begin_line.append h.passes) (ascii "-----END " ++
      ascii "EC PRIVATE KEY" ++ (ascii "-----" ++ [newline] ++ run))
    rw [hword, Option.map_some, ← List.length_append] at hpasses
    simpa only [strstr, List.append_assoc] using hpasses
  obtain ⟨junk', hround'⟩ := rewrite_loop_round hzero' hsearch fuel (ret - 3) junk
  refine ⟨junk', hround.trans (hround'.trans ?_)⟩
  rw [hboth, Int.sub_sub]
  rfl

theorem length_pem_text (lines : List (List UInt8)) :
    (pem_text .ec_private_key lines).length = (pem_text .private_key lines).length + 6 := by
  have hbegin : (begin_line .ec_private_key).length = (begin_line .private_key).length + 3 := rfl
  have hend : (end_line .ec_private_key).length = (end_line .private_key).length + 3 := rfl
  simp only [pem_text, List.length_append, hbegin, hend]
  omega

theorem rewrite_loop_clean (h : Body lines) {rest : List UInt8} (hclean : Clean rest) (fuel : Nat) :
    ∃ back,
      rewrite_loop (fuel + 3)
          ⟨(pem_text .ec_private_key lines).length, pem_text .ec_private_key lines ++ rest⟩ =
        some ⟨(pem_text .private_key lines).length, pem_text .private_key lines ++ back⟩ := by
  obtain ⟨run, hrun, hnone⟩ := hclean
  obtain ⟨tail, hzero, rfl⟩ := eq_append_of_c_string hrun
  obtain ⟨junk, hlabels⟩ :=
    rewrite_loop_labels h hzero (fuel + 1) (pem_text .ec_private_key lines).length tail
  have hstr : c_string (pem_text .private_key lines ++ run ++ 0 :: junk) =
      some (pem_text .private_key lines ++ run) :=
    c_string_append (List.not_mem_append (h.zero_not_mem .private_key) hzero)
  have hsearch := h.passes_pem_text run
  rw [substring.find_eq_none_iff.mpr hnone, Option.map_none] at hsearch
  have hret : ((pem_text .ec_private_key lines).length : Int) - 6 =
      (pem_text .private_key lines).length := by
    have hlength := length_pem_text lines
    omega
  rw [hret] at hlabels
  refine ⟨run ++ 0 :: junk, ?_⟩
  rw [← List.append_assoc, ← List.append_assoc]
  exact hlabels.trans (rewrite_loop_done hstr hsearch fuel)

/-- A file that is cut off before the end of the text does not carry the label. -/
theorem Carries.length_eq {label : Label} {der file back : List UInt8} (h : Body lines)
    (hfile : file <+: pem_text label lines ++ back) (hcarries : Carries label der file) :
    file.length = (pem_text label lines).length := by
  obtain ⟨lines', hdecode, rfl⟩ := hcarries
  obtain ⟨more, hmore⟩ := hfile
  have hdash : ∀ {lines}, Body lines → '-'.toUInt8 ∉ body_text lines := fun hlines =>
    hlines.not_mem_text rfl (by decide) (by decide)
  -- the two bodies end with the first '-'
  have hbody : body_text lines' = body_text lines := by
    simp only [pem_text, List.append_assoc, List.append_cancel_left_eq] at hmore
    exact substring.eq_of_append_cons_eq (hdash (body_of_decode hdecode)) (hdash h) hmore
  simp only [pem_text, List.length_append, hbody]

end Body

/-- Only one label starts the loop, and only one the second encoding. -/
def labelled_pem (wc_DerToPem : DerToPem) (der : List UInt8) : Label → Option Pem
  | .private_key =>
    let pem := wc_DerToPem der (pem_size der) .ECC_PRIVATEKEY_TYPE
    rewrite_loop (pem.pemBuf.length + 1) pem
  | .certificate => some (wc_DerToPem der (pem_size der) .CERT_TYPE)
  | .ec_private_key | .public_key => some (wc_DerToPem der (pem_size der) .ECC_PRIVATEKEY_TYPE)

theorem WritePEM_eq_some_iff {wc_DerToPem : DerToPem} {der : List UInt8}
    (hsize : pem_size der ≤ INT_MAX)
    (hret : (wc_DerToPem der (pem_size der) .ECC_PRIVATEKEY_TYPE).ret > 0)
    (label : Label) (file : List UInt8) :
    WritePEM wc_DerToPem label.header der = some (file, 0) ↔
      ∃ pem, labelled_pem wc_DerToPem der label = some pem ∧
        fwrite pem.pemBuf pem.ret = some file := by
  have hbody : WritePEM wc_DerToPem label.header der =
      (labelled_pem wc_DerToPem der label).bind fun pem =>
        (fwrite pem.pemBuf pem.ret).bind fun file => some (file, 0) := by
    rw [WritePEM, if_neg (Nat.not_lt.mpr hsize)]
    refine (if_pos hret).trans ?_
    cases label <;> rfl
  rw [hbody, Option.bind_eq_some_iff]
  constructor
  · rintro ⟨pem, hpem, hwrite⟩
    obtain ⟨written, hfile, heq⟩ := Option.bind_eq_some_iff.mp hwrite
    cases heq
    exact ⟨pem, hpem, hfile⟩
  · rintro ⟨pem, hpem, hfile⟩
    exact ⟨pem, hpem, Option.bind_eq_some_iff.mpr ⟨file, hfile, rfl⟩⟩

section Encodes

variable {pem : Pem} {type : PemType} {der rest : List UInt8}

theorem Pem.Encodes.ret_pos (h : pem.Encodes type der rest) : pem.ret > 0 := by
  obtain ⟨lines, -, rfl⟩ := h
  have hpos : 0 < (pem_text type.label lines).length := Nat.zero_lt_succ _
  exact Int.natCast_pos.mpr hpos

theorem carries_pem_text {lines : List (List UInt8)} (h : lines.flatten = base64.encode der)
    (label : Label) : Carries label der (pem_text label lines) := by
  refine ⟨lines, ?_, rfl⟩
  rw [h]
  exact base64.decode_encode der

theorem Pem.Encodes.file (h : pem.Encodes type der rest) :
    ∃ file, fwrite pem.pemBuf pem.ret = some file ∧ Carries type.label der file := by
  obtain ⟨lines, hlines, rfl⟩ := h
  exact ⟨_, fwrite_append _ rest, carries_pem_text hlines type.label⟩

theorem Pem.Encodes.rewrites (h : pem.Encodes .ECC_PRIVATEKEY_TYPE der rest) (hclean : Clean rest) :
    RewritesLabels pem ∧
      ∃ rewritten file, rewrite_loop (pem.pemBuf.length + 1) pem = some rewritten ∧
        fwrite rewritten.pemBuf rewritten.ret = some file ∧ Carries .private_key der file := by
  obtain ⟨lines, hlines, rfl⟩ := h
  have hfuel : ∃ fuel, (pem_text .ec_private_key lines ++ rest).length + 1 = fuel + 3 := ⟨_, rfl⟩
  obtain ⟨fuel, hfuel⟩ := hfuel
  obtain ⟨back, hback⟩ := rewrite_loop_clean (body_of_encode hlines) hclean fuel
  rw [← hfuel] at hback
  exact ⟨⟨lines, rest, back, rfl, hback⟩, _, _, hback, fwrite_append _ back,
    carries_pem_text hlines .private_key⟩

/-- The loop reaches the end of the string only if there is one, and a word
    behind the text costs the file its last characters. -/
theorem Pem.Encodes.clean {rewritten : Pem} {file : List UInt8}
    (h : pem.Encodes .ECC_PRIVATEKEY_TYPE der rest)
    (hloop : rewrite_loop (pem.pemBuf.length + 1) pem = some rewritten)
    (hfile : fwrite rewritten.pemBuf rewritten.ret = some file)
    (hcarries : Carries .private_key der file) : Clean rest := by
  obtain ⟨lines, hlines, rfl⟩ := h
  have hbody := body_of_encode hlines
  obtain ⟨str, hstr, -⟩ := Option.bind_eq_some_iff.mp hloop
  obtain ⟨hzero, -⟩ := Option.ite_none_right_eq_some.mp hstr
  have hrest : 0 ∈ rest := (List.mem_append.mp hzero).resolve_left (hbody.zero_not_mem _)
  obtain ⟨run, tail, rfl, hrun⟩ := List.eq_append_cons_of_mem hrest
  refine ⟨run, c_string_append hrun, fun hword => ?_⟩
  have hfuel : ∃ fuel,
      (pem_text .ec_private_key lines ++ (run ++ 0 :: tail)).length + 1 = fuel + 2 := ⟨_, rfl⟩
  obtain ⟨fuel, hfuel⟩ := hfuel
  obtain ⟨junk, hlabels⟩ :=
    rewrite_loop_labels hbody hrun fuel (pem_text .ec_private_key lines).length tail
  rw [List.append_assoc] at hlabels
  have hloop' := (congrArg (rewrite_loop · _) hfuel).symm.trans hloop
  obtain ⟨⟨back, hback⟩, -, hshort⟩ := rewrite_loop_front hbody.passes_pem_text
    (List.not_mem_append (hbody.zero_not_mem _) hrun) (hlabels.symm.trans hloop')
  have hret := hshort hword
  obtain ⟨hstarts, hlength⟩ := fwrite_spec hfile
  rw [hback] at hstarts
  have hwhole := hcarries.length_eq hbody hstarts
  have hlabel := length_pem_text lines
  omega

/-- The file for a public key has the label of the type. -/
theorem not_carries_public_key (lines : List (List UInt8)) :
    ¬ Carries .public_key der (pem_text .ec_private_key lines) := by
  rintro ⟨lines', -, heq⟩
  have hchar : some 'E'.toUInt8 = some 'P'.toUInt8 := congrArg (fun text => text[11]?) heq
  exact absurd hchar (by decide)

end Encodes

/-- The file carries its label, and the loop does no more than it should, for every
    label but one. For a private key the buffer must be a string behind the text,
    and the loop must find nothing more in it. -/
theorem file_carries_label_iff (wc_DerToPem : DerToPem) (label : Label) (der : List UInt8)
    (rest : PemType → List UInt8)
    (hpem : ∀ type, (wc_DerToPem der (pem_size der) type).Encodes type der (rest type)) :
    ((∃ file, WritePEM wc_DerToPem label.header der = some (file, 0) ∧ Carries label der file) ∧
      (label = .private_key →
        RewritesLabels (wc_DerToPem der (pem_size der) .ECC_PRIVATEKEY_TYPE))) ↔
    label ≠ .public_key ∧ (label = .private_key → Clean (rest .ECC_PRIVATEKEY_TYPE)) ∧
      pem_size der ≤ INT_MAX := by
  have hfirst := hpem .ECC_PRIVATEKEY_TYPE
  by_cases hsize : pem_size der ≤ INT_MAX
  · simp only [WritePEM_eq_some_iff hsize hfirst.ret_pos]
    cases label with
    | ec_private_key =>
      obtain ⟨file, hfile, hcarries⟩ := hfirst.file
      have hlabel : Label.ec_private_key ≠ .private_key := by decide
      refine iff_of_true ⟨⟨file, ⟨_, rfl, hfile⟩, hcarries⟩, fun h => absurd h hlabel⟩ ?_
      exact ⟨by decide, fun h => absurd h hlabel, hsize⟩
    | private_key =>
      constructor
      · rintro ⟨⟨file, ⟨rewritten, hloop, hfile⟩, hcarries⟩, -⟩
        exact ⟨by decide, fun _ => hfirst.clean hloop hfile hcarries, hsize⟩
      · rintro ⟨-, hclean, -⟩
        obtain ⟨hrewrites, rewritten, file, hloop, hfile, hcarries⟩ := hfirst.rewrites (hclean rfl)
        exact ⟨⟨file, ⟨rewritten, hloop, hfile⟩, hcarries⟩, fun _ => hrewrites⟩
    | public_key =>
      refine iff_of_false ?_ fun h => h.1 rfl
      rintro ⟨⟨file, ⟨pem, hlabelled, hfile⟩, hcarries⟩, -⟩
      cases hlabelled
      obtain ⟨lines, -, hfirst⟩ := hfirst
      rw [hfirst, fwrite_append] at hfile
      cases hfile
      exact not_carries_public_key lines hcarries
    | certificate =>
      obtain ⟨file, hfile, hcarries⟩ := (hpem .CERT_TYPE).file
      have hlabel : Label.certificate ≠ .private_key := by decide
      refine iff_of_true ⟨⟨file, ⟨_, rfl, hfile⟩, hcarries⟩, fun h => absurd h hlabel⟩ ?_
      exact ⟨by decide, fun h => absurd h hlabel, hsize⟩
  · have hnone : WritePEM wc_DerToPem label.header der = none := if_pos (Nat.lt_of_not_le hsize)
    rw [hnone]
    constructor
    · rintro ⟨⟨file, hfile, -⟩, -⟩
      cases hfile
    · rintro ⟨-, -, hle⟩
      exact absurd hle hsize

/-- The encoder for a blob whose body is one line, in a buffer of zeros. -/
def one_line : DerToPem := fun der size type =>
  let text := pem_text type.label [base64.encode der]
  ⟨text.length, text ++ List.replicate (size - text.length) 0⟩

def zeros (der : List UInt8) (type : PemType) : List UInt8 :=
  List.replicate (pem_size der - (pem_text type.label [base64.encode der]).length) 0

theorem one_line_encodes (der : List UInt8) (type : PemType) :
    (one_line der (pem_size der) type).Encodes type der (zeros der type) := by
  refine ⟨[base64.encode der], ?_, rfl⟩
  rw [List.flatten_cons, List.flatten_nil, List.append_nil]

/-- An integer as DER, the number 5. -/
def five : List UInt8 :=
  [0x02, 0x01, 0x05]

theorem file_carries_label_five :
    ∃ file, WritePEM one_line Label.private_key.header five = some (file, 0) ∧
      Carries .private_key five file := by
  have hclean : Clean (zeros five .ECC_PRIVATEKEY_TYPE) := by
    obtain ⟨n, hn⟩ := Nat.exists_eq_succ_of_ne_zero (show pem_size five -
      (pem_text .ec_private_key [base64.encode five]).length ≠ 0 by decide)
    refine ⟨[], ?_, by decide⟩
    rw [zeros, PemType.label, hn, List.replicate_succ]
    exact c_string_append List.not_mem_nil
  have hfile := file_carries_label_iff one_line .private_key five (zeros five) (one_line_encodes five)
  exact (hfile.mpr ⟨by decide, fun _ => hclean, by decide⟩).1

/-- A public key goes into the file as a private key. -/
theorem public_key_gets_private_label :
    (∀ type, (one_line five (pem_size five) type).Encodes type five (zeros five type)) ∧
    WritePEM one_line Label.public_key.header five =
      some (pem_text .ec_private_key [base64.encode five], 0) ∧
    ¬ ∃ file, WritePEM one_line Label.public_key.header five = some (file, 0) ∧
      Carries .public_key five file := by
  have hret := (one_line_encodes five .ECC_PRIVATEKEY_TYPE).ret_pos
  have hfile : WritePEM one_line Label.public_key.header five =
      some (pem_text .ec_private_key [base64.encode five], 0) :=
    (WritePEM_eq_some_iff (by decide) hret .public_key _).mpr ⟨_, rfl, fwrite_append _ _⟩
  refine ⟨one_line_encodes five, hfile, ?_⟩
  rintro ⟨file, hwritten, hcarries⟩
  rw [hfile] at hwritten
  cases hwritten
  exact not_carries_public_key _ hcarries

end keychain.keys
