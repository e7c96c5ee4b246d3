import ProtoJava.Proofs.Java.Header
import ProtoJava.Proofs.Java.Texts

/-! # Comments on a page

A comment is added to a page below what stands there, each line of it as a line comment of its own
that nothing in it can end.
-/

namespace ProtoJava.Java

open Text

/-- A line of a comment, as it stands on a page. -/
def remarkLine (depth : Nat) (piece : List Char) : List Char :=
  List.replicate (4 * depth) ' ' ++ ['/', '/'] ++ disarm (trimEnd piece)

namespace Page

theorem put_put (p : Page) (cs ds : List Char) : (p.put cs).put ds = p.put (cs ++ ds) := by
  simp [put, utf8Size_append, Nat.add_assoc]

theorem line_eq_put (p : Page) {text : String} (h : text ≠ "") :
    p.line text = p.put (lineText p.depth text).toList := by
  have hempty : ¬ text.isEmpty := by simpa using h
  rw [line, if_neg hempty, indent, put_put, put_put]
  simp [lineText]

theorem foldl_line_eq_put (p : Page) {texts : List String} (h : ∀ text ∈ texts, text ≠ "") :
    texts.foldl line p = p.put (texts.flatMap fun text => (lineText p.depth text).toList) := by
  induction texts generalizing p with
  | nil => rfl
  | cons text texts ih =>
    rw [List.forall_mem_cons] at h
    rw [List.foldl_cons, line_eq_put p h.1, ih _ h.2, put_put]
    rfl

end Page

/-- The text of a comment without the line feed at its end, if there is one. -/
def commentBody (text : String) : List Char :=
  if text.toList.getLast? = some '\n' then text.toList.dropLast else text.toList

theorem commentLines_eq (text : String) :
    commentLines text.toList = ((commentBody text).splitOn '\n').map trimEnd := by
  rw [commentLines, getD_dropSuffix?, pieces_eq_splitOn]
  rfl

/-- The lines of a comment: the pieces of its text between line feeds, each made harmless and after
two slashes. -/
def remarkLines (text : String) : List String :=
  ((commentBody text).splitOn '\n').map fun piece => "//" ++ String.ofList (disarm (trimEnd piece))

theorem lineComments_eq (text : String) : lineComments text = remarkLines text := by
  rw [lineComments, commentLines_eq, List.map_map]
  rfl

theorem toList_lineText_remark (depth : Nat) (piece : List Char) :
    (lineText depth ("//" ++ String.ofList (disarm (trimEnd piece)))).toList =
      remarkLine depth piece ++ ['\n'] := by
  simp [lineText, remarkLine]

theorem contained_of_mem_splitOn {text : String} {piece : List Char}
    (h : piece ∈ (commentBody text).splitOn '\n') : Contained (disarm (trimEnd piece)) := by
  have hline : "//" ++ String.ofList (disarm (trimEnd piece)) ∈ lineComments text := by
    rw [lineComments_eq, remarkLines]
    exact List.mem_map_of_mem h
  obtain ⟨cs, hcs, hcontained⟩ := lineComments_contained hline
  obtain rfl : disarm (trimEnd piece) = cs := by simpa using hcs
  exact hcontained

/-- No Unicode escape is in the line of a comment, whatever the comment says. -/
theorem not_hasUnicodeEscape_remarkLine (depth : Nat) (piece : List Char) :
    ¬ HasUnicodeEscape (remarkLine depth piece) := by
  have hlead : Contained (List.replicate (4 * depth) ' ' ++ ['/', '/']) :=
    contained_of_not_mem (by simp) (by simp) (by simp)
  rw [remarkLine, hasUnicodeEscape_append (by simp), not_or]
  exact ⟨hlead.escape, not_hasUnicodeEscape_disarm _⟩

/-- A comment is added to a page, and stays a comment. Its lines, the line feed at its end not
counted, stand below the page at its depth, each after two slashes, and nothing in them ends their
line, as it stands or as an escape. For that, disarming makes a carriage return a space and puts a
backslash before each `u` after an odd run of them; it changes nothing else, and nothing twice. -/
theorem comment_inert (page : Page) (text : String) :
    page.write (.comment text) = (page.put (((commentBody text).splitOn '\n').flatMap
        fun piece => remarkLine page.depth piece ++ ['\n']), none) ∧
      (∀ piece ∈ (commentBody text).splitOn '\n', Contained (disarm (trimEnd piece)) ∧
        decodeUnicode (remarkLine page.depth piece) = some (remarkLine page.depth piece)) ∧
      (∀ l, disarm (disarm l) = disarm l) ∧
      (∀ l, '\r' ∉ l → ¬ HasUnicodeEscape l → disarm l = l) ∧
      disarm [] = [] ∧ ∀ l c, disarm (l ++ [c]) = disarm l ++ disarmedChar l c := by
  refine ⟨?_, ?_, disarm_disarm, fun _ => disarm_eq_self, rfl, disarm_concat⟩
  · have hne : ∀ l ∈ lineComments text, l ≠ "" := by
      rintro l hl rfl
      obtain ⟨cs, hcs, -⟩ := lineComments_contained hl
      cases hcs
    rw [Page.write, Page.foldl_line_eq_put page hne, lineComments_eq, remarkLines,
      List.flatMap_map]
    simp only [toList_lineText_remark]
  · intro piece hp
    exact ⟨contained_of_mem_splitOn hp,
      decodeUnicode_eq_self (not_hasUnicodeEscape_remarkLine page.depth piece)⟩

/-- Line breaks and escapes of them, and a run of backslashes that a carriage return splits. -/
theorem comment_inert_breaking :
    let page : Page := { depth := 1 }
    let text := " a\r\\u000aint b;\n\\\r\\\\u0041\n"
    let line := "\\ \\\\u0041".toList
    (page.write (.comment text)).1.text =
        "    // a \\\\u000aint b;\n    //\\ \\\\u0041\n" ∧
      (∀ piece ∈ (commentBody text).splitOn '\n', Contained (disarm (trimEnd piece))) ∧
      '\r' ∉ line ∧ ¬ HasUnicodeEscape line ∧ disarm line = line := by
  intro page text line
  obtain ⟨-, hcontained, -, hsame, -⟩ := comment_inert page text
  have hr : '\r' ∉ line := by decide
  have he : ¬ HasUnicodeEscape line := not_hasUnicodeEscape_disarm "\\\r\\\\u0041".toList
  exact ⟨by decide +kernel, fun piece hp => (hcontained piece hp).1, hr, he, hsame line hr he⟩

end ProtoJava.Java
