import BuildTyping.Proofs.Report.Location

/-!
# The arrow under a line

The arrow stands behind as many dashes as there are bytes between the indentation of the line and
the fault, so it is under the faulty character where each character between them is a single byte.
-/

namespace BuildTyping

/-- Behind the column of a boundary in a line without its indentation stands what is behind the
boundary. -/
theorem drop_indented_column {as bs : List Char}
    (h : ((as ++ bs).takeWhile isIndent).length ≤ as.length) :
    ((as ++ bs).dropWhile isIndent).drop (as.dropWhile isIndent).length = bs := by
  rcases takeWhile_append_cases isIndent as bs with ⟨hnil, htake⟩ | ⟨-, hdrop⟩
  · have hbs : bs.takeWhile isIndent = [] := by
      rw [htake, List.length_append] at h
      exact List.length_eq_zero_iff.1 (by omega)
    have hsplit := List.takeWhile_append_dropWhile (p := isIndent) (l := bs)
    rw [hbs, List.nil_append] at hsplit
    rw [List.dropWhile_append, hnil, hsplit]
    rfl
  · rw [hdrop, List.drop_left]

namespace Program

variable {source : List Char} {file : String} {fault : Fault}

/-- Where the arrow is less than 65536 characters wide, it stands under the line of the fault, which
is shown without its indentation, behind a dash for each byte of the text between the indentation
and the fault, and the dashes begin in the column where the line begins. So the arrow is under the
faulty character exactly if this text has only characters of one byte, and otherwise it is farther
to the right. -/
theorem ofSource_error_caret (hshort : byteLength source < 2 ^ 32)
    (h : ofSource source file = .error fault) :
    ∃ before after, source = before ++ after ∧ byteLength before = fault.offset ∧
      let line := lastLine before ++ firstLine after
      let column := (lastLine before).length - (line.takeWhile isIndent).length
      let number := toString (1 + before.count '\n')
      let margin := String.ofList (List.replicate (number.length + 1) ' ') ++ "|"
      let dashes := String.ofList (List.replicate (byteLength (lead before)) '-')
      (byteLength (lead before) + 1 < 2 ^ 16 → fault.render? source = some (String.join
        ([fault.headline, "-> " ++ file, margin,
          number ++ " | " ++ String.ofList (trimEnd (line.dropWhile isIndent)),
          margin ++ " " ++ (dashes ++ "^")].map (· ++ "\n")))) ∧
      (2 ^ 16 ≤ byteLength (lead before) + 1 → fault.render? source = none) ∧
      (margin ++ " ").length = (number ++ " | ").length ∧
      ((line.takeWhile isIndent).length ≤ (lastLine before).length →
        (line.dropWhile isIndent).drop column = firstLine after) ∧
      column ≤ dashes.length ∧ (dashes.length = column ↔ ∀ c ∈ lead before, c.utf8Size = 1) := by
  obtain ⟨hfile, hboundary, -⟩ := origin_of_ofSource hshort h
  obtain ⟨before, after, rfl, hbefore⟩ := isBoundary_iff.1 hboundary
  refine ⟨before, after, rfl, hbefore, ?_⟩
  intro line column number margin dashes
  obtain ⟨hcolumn, -⟩ : column = (lead before).length ∧ _ :=
    indented_column (lastLine before) (firstLine after)
  have hdashes : dashes.length = byteLength (lead before) := by simp [dashes]
  obtain ⟨hshown, hrefused⟩ := Fault.render?_append hbefore after
  rw [hfile] at hshown
  rw [hdashes, hcolumn]
  refine ⟨hshown, hrefused, ?_, drop_indented_column, length_le_byteLength (lead before),
    byteLength_eq_length_iff⟩
  simp only [margin, String.length_append, String.length_ofList, List.length_replicate]
  rfl

/-- A character of two bytes on an earlier line does not move the arrow. -/
theorem ofSource_error_caret_indented :
    let source := "é = 1\n\ty = $\n".toList
    let fault : Fault := ⟨.unrecognisedToken "$", .ofOffset 12 "BUILD"⟩
    byteLength source < 2 ^ 32 ∧ ofSource source "BUILD" = .error fault ∧
    fault.render? source =
      some "Error: UnrecognisedToken\n-> BUILD\n  |\n2 | y = $\n  | ----^\n" ∧
    ∃ before after, source = before ++ after ∧ byteLength before = 12 ∧
      byteLength (lead before) + 1 < 2 ^ 16 ∧
      byteLength (lead before) = (lastLine before).length -
        ((lastLine before ++ firstLine after).takeWhile isIndent).length := by
  intro source fault
  have hshort : byteLength source < 2 ^ 32 := by decide +kernel
  have hfault : tokens source "BUILD" = .error fault := by decide +kernel
  have herror : ofSource source "BUILD" = .error fault := by simp [ofSource, hfault]
  have hoffset : fault.offset = 12 := Position.offset_ofOffset (by decide) "BUILD"
  obtain ⟨before, after, hsource, hbefore, -, -, -, -, -, harrow⟩ :=
    ofSource_error_caret hshort herror
  rw [hoffset] at hbefore
  have htext : before = "é = 1\n\ty = ".toList := by
    have htake := takeBytes_append before after
    rw [← hsource, hbefore] at htake
    rw [← htake]
    decide +kernel
  have hbytes : ∀ c ∈ lead before, c.utf8Size = 1 :=
    byteLength_eq_length_iff.1 (by rw [htext]; decide +kernel)
  refine ⟨hshort, herror, by decide +kernel, before, after, hsource, hbefore, ?_, ?_⟩
  · rw [htext]
    decide +kernel
  · simpa using harrow.2 hbytes

/-- The arrow is too far to the right behind a character of two bytes. -/
theorem caret_in_column_not : ¬∀ (source : List Char) (file : String) (fault : Fault),
    ofSource source file = .error fault →
    ∀ before after, source = before ++ after → byteLength before = fault.offset →
      let line := lastLine before ++ firstLine after
      let column := (lastLine before).length - (line.takeWhile isIndent).length
      ∃ above, fault.render? source =
        some (above ++ "| " ++ String.ofList (List.replicate column '-') ++ "^\n") := by
  intro h
  let fault : Fault := ⟨.unrecognisedToken "$", .ofOffset 5 "BUILD"⟩
  have hfault : tokens "é = $\n".toList "BUILD" = .error fault := by decide +kernel
  have hoffset : fault.offset = 5 := Position.offset_ofOffset (by decide) "BUILD"
  obtain ⟨above, habove⟩ := h "é = $\n".toList "BUILD" fault
    (by rw [ofSource, hfault]) "é = ".toList "$\n".toList rfl (by rw [hoffset]; rfl)
  have hcolumn : (lastLine "é = ".toList).length - ((lastLine "é = ".toList ++
      firstLine "$\n".toList).takeWhile isIndent).length = 4 := by decide +kernel
  have hshown : (fault.render? "é = $\n".toList).map String.toList =
      some (above.toList ++ "| ----^\n".toList) := by
    rw [habove, hcolumn]
    simp
  have hends : ∀ text ∈ (fault.render? "é = $\n".toList).map String.toList,
      "| ----^\n".toList <:+ text := by
    rw [hshown]
    rintro text ⟨⟩
    exact ⟨above.toList, rfl⟩
  exact absurd hends (by decide +kernel)

end Program

end BuildTyping
