/-
What a layout file keeps as its declaration.
 Bytes in front that look like a declaration are kept, and written back before everything that was read. A file that has
none may start with an instruction whose target only begins like one. Then the document holds what is kept as well, and
it stands twice in what is written (`toBytes_repeats`): once more each time, and with one remark more on reading it.
-/
import Rebind.Layout.File

namespace Rebind.Layout

open Markup Option List

/-- What starts with the letters of a declaration is an instruction. -/
theorem exists_of_token? {t rest token} (h : token? ("<?xml" ++ t) = some (token, rest)) :
    ∃ target data, token = .instruction target data ∧ ("xml" : Text) <+: target := by
  have hname : name? ("xml" ++ t) = some ("xml" ++ t.takeWhile isNameOrColon, t.dropWhile isNameOrColon) := by rfl
  change instructionTail? ("xml" ++ t) = _ at h
  simp only [instructionTail?, hname, bind_eq_bind, bind_some] at h
  refine ⟨"xml" ++ t.takeWhile isNameOrColon, ?_⟩
  split at h
  · cases h
  · split at h
    · cases h
      exact ⟨none, rfl, prefix_append _ _⟩
    · split at h
      · obtain ⟨⟨data, rest⟩, -, h⟩ := bind_eq_some_iff.1 h
        split at h
        · cases h
          exact ⟨some data, rfl, prefix_append _ _⟩
        · cases h
      · cases h

theorem exists_of_tokens? {t tokens} (h : tokens? ("<?xml" ++ t) = some tokens) :
    ∃ target data others, tokens = .instruction target data :: others ∧ ("xml" : Text) <+: target := by
  rw [tokens?, if_neg (by simp)] at h
  split at h
  · next token rest htoken =>
    obtain ⟨target, data, rfl, hxml⟩ := exists_of_token? htoken
    split at h
    · obtain ⟨others, -, rfl⟩ := map_eq_some_iff.1 h
      exact ⟨target, data, others, rfl, hxml⟩
    · cases h
  · cases h

theorem before_of_ofTokens? {e tokens d} (h : ofTokens? e tokens = some d) :
    d.encoding = e ∧ d.before = (asides tokens).1 := by
  simp only [ofTokens?, bind_eq_bind, bind_eq_some_iff] at h
  obtain ⟨⟨root, notes, rest⟩, -, h⟩ := h
  split at h
  · split at h
    · cases h
      exact ⟨rfl, rfl⟩
    · cases h
  · cases h

namespace LayoutFile

/-- A file that starts with the letters of a declaration and goes on with no blank writes its first instruction twice.
-/
theorem toBytes_repeats {name t : Text} {m : Bytes} {c : Char} {l : LayoutFile}
    (h : ofBytes? name (Text.utf8 "<?xml" ++ m) = some l) (hutf8 : l.document.encoding = .utf8)
    (ht : Text.ofUtf8 (Text.utf8 "<?xml" ++ m) = .ok ("<?xml" ++ c :: t)) (hc : isSpace c = false) :
    ∃ target data, l.document.before.head? = some (.instruction target data) ∧ ("xml" : Text) <+: target ∧
      l.declaration ++ Text.utf8 (writeInstruction target data) <+: l.toBytes := by
  obtain ⟨d, hd, rfl⟩ := map_eq_some_iff.1 h
  obtain ⟨e, -, hd⟩ := bind_eq_some_iff.1 (show (encodingOf? _).bind (Document.ofEncoded? · _) = _ from hd)
  simp only [Document.ofEncoded?, bind_eq_bind, bind_eq_some_iff] at hd
  obtain ⟨text, hdecode, ⟨name', body⟩, hbody, tokens, htokens, hd⟩ := hd
  obtain ⟨rfl, hbefore⟩ := before_of_ofTokens? hd
  replace hutf8 : d.encoding = .utf8 := hutf8
  have hlines : unixLines ("<?xml" ++ c :: t) = "<?xml" ++ c :: unixLines t := by
    have hne : c ≠ '\r' := by
      rintro rfl
      cases hc
    simp [unixLines, hne]
  have hnone : xmlDeclaration? ("<?xml" ++ c :: unixLines t) = some (none, "<?xml" ++ c :: unixLines t) := by
    simp [xmlDeclaration?, Text.after?, hc]
  rw [hutf8, Encoding.decode?, ht] at hdecode
  cases hdecode
  rw [hlines, hnone] at hbody
  cases hbody
  obtain ⟨target, data, others, rfl, hxml⟩ := exists_of_tokens? htokens
  refine ⟨target, data, by rw [hbefore]; rfl, hxml, ?_⟩
  obtain ⟨rest, hwrite⟩ : ∃ rest, d.write = writeInstruction target data ++ rest := by
    rw [Document.write, hbefore, append_assoc]
    exact ⟨_, append_assoc ..⟩
  have hbytes : d.toBytes = Text.utf8 (writeInstruction target data) ++ Text.utf8 rest := by
    rw [Document.toBytes, hutf8, hwrite]
    exact flatMap_append
  rw [toBytes, hbytes, append_assoc, prefix_append_right_inj, append_assoc]
  exact prefix_append _ _

/-- A file that starts with an instruction. -/
def styled : Bytes := Text.utf8 "<?xml-stylesheet href=\"a\"?>\n<a/>\n"

theorem toBytes_repeats_styled : ∃ l target data, ofBytes? "m" styled = some l ∧
    l.declaration ++ Text.utf8 (writeInstruction target data) <+: l.toBytes := by
  have hread : (ofBytes? "m" styled).any (·.document.encoding = .utf8) = true := by decide +kernel
  obtain ⟨l, hl, hutf8⟩ := (any_eq_true _ _).1 hread
  have htext : Text.ofUtf8 (Text.utf8 "<?xml" ++ styled.drop 5) =
      .ok ("<?xml" ++ '-' :: "stylesheet href=\"a\"?>\n<a/>\n") := by rfl
  obtain ⟨target, data, -, -, hrepeats⟩ := toBytes_repeats hl (of_decide_eq_true hutf8) htext rfl
  exact ⟨l, target, data, hl, hrepeats⟩

/-- The instruction is written once more. -/
theorem toBytes_unstable : ∃ l l', ofBytes? "m" styled = some l ∧ ofBytes? "m" l.toBytes = some l' ∧
    l'.toBytes ≠ l.toBytes := by
  have hwritten : (ofBytes? "m" styled).any (fun l => (ofBytes? "m" l.toBytes).any (·.toBytes ≠ l.toBytes)) = true := by
    decide +kernel
  obtain ⟨l, hl, hwritten⟩ := (any_eq_true _ _).1 hwritten
  obtain ⟨l', hl', hne⟩ := (any_eq_true _ _).1 hwritten
  exact ⟨l, l', hl, hl', of_decide_eq_true hne⟩

/-- A file with a fault, which the last remark that is minded stands behind. -/
def remarked : Bytes := Text.utf8 ((replicate 99 "<?xmla?>".toList).flatten ++ "<b:c/><?xmla?>")

/-- With one instruction more in front, the fault is the last that is minded. -/
theorem reopened_none : ∃ l, ofBytes? "m" remarked = some l ∧ ofBytes? "m" l.toBytes = none := by
  have hread : (ofBytes? "m" remarked).any (fun l => (ofBytes? "m" l.toBytes).isNone) = true := by decide +kernel
  obtain ⟨l, hl, hnone⟩ := (any_eq_true _ _).1 hread
  exact ⟨l, hl, isNone_iff_eq_none.1 hnone⟩

end LayoutFile

end Rebind.Layout
