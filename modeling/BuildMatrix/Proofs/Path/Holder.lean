import BuildMatrix.Tree.Write
import BuildMatrix.Proofs.Path.Name

/-!
# The directory that holds a path

A path that ends in a name begins with a path to the directory of this name.  The
beginning is found in two ways: it is the path to which the name was added, or it
is what `Tree.holder` makes of the pieces before the name.  The two are spelled the
same way as these pieces, but for idle pieces at the end, and they are the beginning
of the text as well, unless there is nothing before the name.
-/

namespace BuildMatrix

/-! ## Idle pieces -/

/-- A piece that leads nowhere. -/
def Idle (piece : String) : Prop := piece = "" ∨ piece = "."

theorem Plain.not_idle {name : String} (plain : Plain name) : ¬ Idle name :=
  not_or.2 ⟨plain.not_empty, plain.not_here⟩

/-- The pieces are the same but for idle ones at the end. -/
def SameWay (a b : List String) : Prop :=
  ∃ core x y, a = core ++ x ∧ b = core ++ y ∧ (∀ i ∈ x, Idle i) ∧ ∀ i ∈ y, Idle i

theorem SameWay.refl (a : List String) : SameWay a a :=
  ⟨a, [], [], (List.append_nil a).symm, (List.append_nil a).symm, fun _ h => (by cases h),
    fun _ h => by cases h⟩

theorem sameWay_of_idle {a b : List String} (ha : ∀ i ∈ a, Idle i) (hb : ∀ i ∈ b, Idle i) :
    SameWay a b :=
  ⟨[], a, b, rfl, rfl, ha, hb⟩

theorem idle_singleton : ∀ i ∈ [""], Idle i := fun _ h => .inl (List.mem_singleton.1 h)

namespace Path

/-! ## Pieces and text -/

theorem not_mem_of_mem_splitOn {a : Char} {xs l : List Char} (h : l ∈ xs.splitOn a) : a ∉ l := by
  induction xs generalizing l with
  | nil =>
    rw [List.splitOn_nil, List.mem_singleton] at h
    rw [h]
    exact List.not_mem_nil
  | cons x xs ih =>
    rw [List.splitOn_cons_eq_if_modifyHead] at h
    split at h
    · rcases List.mem_cons.1 h with rfl | h
      · exact List.not_mem_nil
      · exact ih h
    · next hx =>
      obtain ⟨first, others, hsplit⟩ := List.exists_cons_of_ne_nil (List.splitOn_ne_nil a xs)
      rw [hsplit, List.modifyHead_cons] at h
      rw [hsplit] at ih
      rcases List.mem_cons.1 h with rfl | h
      · intro hmem
        rcases List.mem_cons.1 hmem with rfl | hmem
        · exact hx (beq_self_eq_true _)
        · exact ih List.mem_cons_self hmem
      · exact ih (List.mem_cons_of_mem _ h)

theorem exists_last_part (a : Char) (xs : List Char) :
    ∃ front last, xs.splitOn a = front ++ [last] := by
  obtain ⟨front, last, hsplit⟩ :=
    (List.eq_nil_or_concat _).resolve_left (List.splitOn_ne_nil a xs)
  exact ⟨front, last, hsplit.trans List.concat_eq_append⟩

/-- What follows the last occurrence of a character is at the end. -/
theorem splitOn_concat {a : Char} {xs last : List Char} {front : List (List Char)}
    (h : xs.splitOn a = front ++ [last]) : front = [] ∧ xs = last ∨ ∃ x, xs = x ++ a :: last := by
  have hback : [a].intercalate (front ++ [last]) = xs := h ▸ List.intercalate_splitOn a
  clear h
  induction front generalizing xs with
  | nil =>
    refine .inl ⟨rfl, ?_⟩
    rw [← hback]
    simp [List.intercalate]
  | cons first front ih =>
    have hcons : [a].intercalate (first :: (front ++ [last])) =
        first ++ a :: [a].intercalate (front ++ [last]) := by
      obtain ⟨second, rest, hrest⟩ := List.exists_cons_of_ne_nil (List.concat_ne_nil last front)
      rw [hrest]
      simp [List.intercalate]
    rw [List.cons_append, hcons] at hback
    rcases ih rfl with ⟨-, hlast⟩ | ⟨x, hx⟩
    · exact .inr ⟨first, by rw [← hback, hlast]⟩
    · exact .inr ⟨first ++ a :: x, by rw [← hback, hx]; simp⟩

/-- What is added without the character goes to the last part. -/
theorem splitOn_append {a : Char} {xs ys last : List Char} {front : List (List Char)}
    (h : xs.splitOn a = front ++ [last]) (hys : a ∉ ys) :
    (xs ++ ys).splitOn a = front ++ [last ++ ys] := by
  have hlast : a ∉ last := not_mem_of_mem_splitOn (h ▸ List.mem_append_right _ List.mem_cons_self)
  have hboth : a ∉ last ++ ys := fun hmem => (List.mem_append.1 hmem).elim hlast hys
  rcases splitOn_concat h with ⟨rfl, rfl⟩ | ⟨x, rfl⟩
  · exact List.splitOn_eq_singleton hboth
  · rw [List.splitOn_append_cons_self, List.splitOn_eq_singleton hlast] at h
    rw [List.append_assoc, List.cons_append, List.splitOn_append_cons_self,
      List.splitOn_eq_singleton hboth, (List.append_inj' h rfl).1]

theorem not_mem_of_mem_pieces {p : Path} {piece : String} (h : piece ∈ p.pieces) :
    '/' ∉ piece.toList := by
  obtain ⟨l, hl, rfl⟩ := List.mem_map.1 h
  rw [String.toList_ofList]
  exact not_mem_of_mem_splitOn hl

/-- The pieces put together again are the text. -/
theorem intercalate_pieces (p : Path) : "/".intercalate p.pieces = p.text := by
  apply String.toList_inj.1
  rw [String.toList_intercalate, pieces, Text.pieces, List.map_map]
  have hback : String.toList ∘ String.ofList = id := funext fun l => String.toList_ofList
  rw [hback, List.map_id]
  exact List.intercalate_splitOn '/'

/-- Pieces without slashes are those of the text that they make. -/
theorem pieces_intercalate {ps : List String} (hne : ps ≠ []) (h : ∀ piece ∈ ps, '/' ∉ piece.toList) :
    (Path.mk ("/".intercalate ps)).pieces = ps := by
  rw [pieces, Text.pieces, String.toList_intercalate]
  show (['/'].intercalate (ps.map String.toList) |>.splitOn '/').map String.ofList = ps
  rw [List.splitOn_intercalate '/' _ (by rwa [Ne, List.map_eq_nil_iff]), List.map_map]
  · have hback : String.ofList ∘ String.toList = id := funext fun s => String.ofList_toList
    rw [hback, List.map_id]
  · intro l hl
    obtain ⟨piece, hpiece, rfl⟩ := List.mem_map.1 hl
    exact h piece hpiece

/-! ## Places above -/

/-- The first place above some pieces is made of them without the idle ones at their end. -/
theorem placesAbove_cases (absolute : Bool) (reversed : List String) :
    (placesAbove absolute reversed = [] ∧ ∀ i ∈ reversed, Idle i) ∨
      ∃ core idles above, placesAbove absolute reversed = core :: above ∧ core ≠ [] ∧ core ≠ [""] ∧
        reversed.reverse = core ++ idles ∧ ∀ i ∈ idles, Idle i := by
  induction reversed with
  | nil => exact .inl ⟨rfl, fun _ h => by cases h⟩
  | cons piece rest ih =>
    rw [placesAbove]
    split
    · next hidle =>
      have hpiece : Idle piece := hidle.imp_right And.left
      rcases ih with ⟨hnone, hall⟩ | ⟨core, idles, above, hplaces, hcore, hcore', hrest, hidles⟩
      · refine .inl ⟨hnone, fun i hi => ?_⟩
        rcases List.mem_cons.1 hi with rfl | hi
        · exact hpiece
        · exact hall i hi
      · refine .inr ⟨core, idles ++ [piece], above, hplaces, hcore, hcore', ?_, fun i hi => ?_⟩
        · rw [List.reverse_cons, hrest, List.append_assoc]
        · rcases List.mem_append.1 hi with hi | hi
          · exact hidles i hi
          · rw [List.mem_singleton.1 hi]
            exact hpiece
    · next hidle =>
      refine .inr ⟨_, [], _, rfl, ?_, ?_, (List.append_nil _).symm, fun _ h => by cases h⟩
      · rw [List.reverse_cons]
        exact List.concat_ne_nil _ _
      · intro h
        rw [List.reverse_eq_iff, List.reverse_singleton] at h
        injection h with hpiece _
        exact hidle (.inl hpiece)

theorem places_of_absolute {p : Path} (h : p.isAbsolute = true) :
    p.places = ((placesAbove true (p.pieces.drop 1).reverse).map fun ps =>
      ⟨"/" ++ "/".intercalate ps⟩) ++ [⟨"/"⟩] := if_pos h

theorem places_of_relative {p : Path} (h : ¬ p.isAbsolute = true) :
    p.places = ((placesAbove false p.pieces.reverse).map fun ps => ⟨"/".intercalate ps⟩) ++ [⟨""⟩] :=
  if_neg h

theorem pieces_of_absolute {p : Path} (h : p.isAbsolute = true) : ∃ rest, p.pieces = "" :: rest := by
  have hhead : p.text.toList.head? = some '/' := of_decide_eq_true h
  obtain ⟨chars, hchars⟩ := List.head?_eq_some_iff.1 hhead
  refine ⟨(chars.splitOn '/').map String.ofList, ?_⟩
  rw [pieces, Text.pieces, hchars, List.splitOn_cons_eq_if_modifyHead, if_pos (beq_self_eq_true _)]
  rfl

/-- The places above some pieces are made of them. -/
theorem mem_placesAbove {absolute : Bool} {reversed ps : List String}
    (h : ps ∈ placesAbove absolute reversed) : ps ≠ [] ∧ ∀ piece ∈ ps, piece ∈ reversed := by
  induction reversed with
  | nil => cases h
  | cons first rest ih =>
    rw [placesAbove] at h
    split at h
    · exact ⟨(ih h).1, fun piece hpiece => List.mem_cons_of_mem _ ((ih h).2 piece hpiece)⟩
    · rcases List.mem_cons.1 h with rfl | h
      · exact ⟨List.reverse_ne_nil_iff.2 (List.cons_ne_nil _ _), fun piece => List.mem_reverse.1⟩
      · exact ⟨(ih h).1, fun piece hpiece => List.mem_cons_of_mem _ ((ih h).2 piece hpiece)⟩

/-- The pieces of a path on the way to another one are pieces of that one, but for empty ones. -/
theorem mem_pieces_of_mem_places {q p : Path} (h : q ∈ p.places) {piece : String}
    (hpiece : piece ∈ q.pieces) (hne : piece ≠ "") : piece ∈ p.pieces := by
  have idle : ∀ text ∈ ["", "/"], q = ⟨text⟩ → piece = "" := by
    rintro text htext rfl
    have hall : ∀ text ∈ ["", "/"], ∀ piece ∈ (Path.mk text).pieces, piece = "" := by decide
    exact hall text htext piece hpiece
  have spelled : ∀ ps, ps ≠ [] → (∀ i ∈ ps, i ∈ p.pieces) → q = ⟨"/".intercalate ps⟩ →
      piece ∈ p.pieces := by
    rintro ps hps hmem rfl
    rw [pieces_intercalate hps fun i hi => not_mem_of_mem_pieces (hmem i hi)] at hpiece
    exact hmem piece hpiece
  by_cases habs : p.isAbsolute = true
  · rw [places_of_absolute habs] at h
    rcases List.mem_append.1 h with h | h
    · obtain ⟨ps, hps, hq⟩ := List.mem_map.1 h
      obtain ⟨hne, hmem⟩ := mem_placesAbove hps
      obtain ⟨rest, hrest⟩ := pieces_of_absolute habs
      refine spelled ("" :: ps) (List.cons_ne_nil _ _) (fun i hi => ?_) ?_
      · rcases List.mem_cons.1 hi with rfl | hi
        · simp [hrest]
        · exact List.mem_of_mem_drop (List.mem_reverse.1 (hmem i hi))
      · rw [← hq, String.intercalate_cons_of_ne_nil hne, String.empty_append]
    · exact absurd (idle "/" (by simp) (List.mem_singleton.1 h)) hne
  · rw [places_of_relative habs] at h
    rcases List.mem_append.1 h with h | h
    · obtain ⟨ps, hps, hq⟩ := List.mem_map.1 h
      obtain ⟨hne, hmem⟩ := mem_placesAbove hps
      exact spelled ps hne (fun i hi => List.mem_reverse.1 (hmem i hi)) hq.symm
    · exact absurd (idle "" (by simp) (List.mem_singleton.1 h)) hne

/-- The places above the pieces that come before a name. -/
theorem placesAbove_cons {name : String} (hname : ¬ Idle name) (absolute : Bool)
    (reversed : List String) :
    placesAbove absolute (name :: reversed) =
      (name :: reversed).reverse :: placesAbove absolute reversed := by
  rw [placesAbove, if_neg]
  exact fun h => hname (h.imp_right And.left)

/-! ## Beginnings -/

/-- A path with which another one begins, up to some pieces of it. -/
structure Begins (q p : Path) (front : List String) : Prop where
  /-- It is not empty. -/
  not_empty : q.text ≠ ""
  /-- The text begins with it, or it is the working directory and the path is relative. -/
  text : (∃ rest, p.text = q.text ++ rest) ∨ q.text = "." ∧ ¬ p.isAbsolute = true
  /-- It leads where the pieces lead. -/
  way : SameWay q.pieces front

theorem Begins.isAbsolute {q p : Path} {front : List String} (h : Begins q p front) :
    q.isAbsolute = p.isAbsolute := by
  rcases h.text with ⟨rest, hrest⟩ | ⟨hhere, hrelative⟩
  · have hne : q.text.toList ≠ [] := fun h' => h.not_empty (String.toList_eq_nil_iff.1 h')
    obtain ⟨c, chars, hchars⟩ := List.exists_cons_of_ne_nil hne
    unfold Path.isAbsolute
    rw [hrest, String.toList_append, hchars]
    rfl
  · rw [Bool.not_eq_true] at hrelative
    rw [hrelative]
    unfold Path.isAbsolute
    rw [hhere]
    rfl

/-- A path begins with the text of some of its first pieces. -/
theorem begins_of_core (p : Path) (core idles : List String) {name : String} (hne : core ≠ [])
    (hblank : core ≠ [""]) (h : p.pieces = core ++ idles ++ [name]) (hidles : ∀ i ∈ idles, Idle i) :
    Begins ⟨"/".intercalate core⟩ p (core ++ idles) := by
  have hpieces : (Path.mk ("/".intercalate core)).pieces = core := by
    refine pieces_intercalate hne fun piece hpiece => not_mem_of_mem_pieces (p := p) ?_
    rw [h]
    exact List.mem_append_left _ (List.mem_append_left _ hpiece)
  refine ⟨fun hempty => hblank ?_, .inl ⟨"/" ++ "/".intercalate (idles ++ [name]), ?_⟩, ?_⟩
  · have hempty : "/".intercalate core = "" := hempty
    rw [← hpieces, hempty]
    rfl
  · rw [← intercalate_pieces p, h, List.append_assoc,
      String.intercalate_append_of_ne_nil hne (List.concat_ne_nil _ _), String.append_assoc]
  · rw [hpieces]
    exact ⟨core, [], idles, (List.append_nil _).symm, rfl, fun _ h => (by cases h), hidles⟩

end Path

open BuildMatrix.Path (Begins)

/-- The holder of a path that ends in a name is where the pieces before the name lead. -/
theorem begins_holder {p : Path} {front : List String} {name : String}
    (hends : p.pieces = front ++ [name]) (hname : ¬ Idle name) : Begins (Tree.holder p) p front := by
  unfold Tree.holder Path.parent? Path.ancestors
  by_cases habs : p.isAbsolute = true
  · obtain ⟨rest, hrest⟩ := Path.pieces_of_absolute habs
    obtain ⟨front', rfl⟩ : ∃ front', front = "" :: front' := by
      cases front with
      | nil =>
        rw [hends] at hrest
        injection hrest with hempty _
        exact absurd (.inl hempty) hname
      | cons first front' =>
        rw [hends] at hrest
        injection hrest with hfirst _
        exact ⟨front', by rw [hfirst]⟩
    rw [Path.places_of_absolute habs, hends, List.cons_append, List.drop_succ_cons,
      List.drop_zero, List.reverse_concat, Path.placesAbove_cons hname, List.map_cons,
      List.cons_append, List.drop_succ_cons, List.drop_zero]
    rcases Path.placesAbove_cases true front'.reverse with
      ⟨hnone, hidle⟩ | ⟨core, idles, above, hplaces, hcore, -, hfront, hidles⟩
    · rw [hnone]
      have hidle : ∀ i ∈ "" :: front', Idle i := by
        intro i hi
        rcases List.mem_cons.1 hi with rfl | hi
        · exact .inl rfl
        · exact hidle i (List.mem_reverse.2 hi)
      refine ⟨by decide, .inl ⟨"/".intercalate (front' ++ [name]), ?_⟩, sameWay_of_idle ?_ hidle⟩
      · rw [← p.intercalate_pieces, hends, List.cons_append,
          String.intercalate_cons_of_ne_nil (List.concat_ne_nil _ _)]
        rfl
      · show ∀ i ∈ (["", ""] : List String), Idle i
        intro i hi
        rcases List.mem_cons.1 hi with rfl | hi
        · exact .inl rfl
        · exact idle_singleton i hi
    · rw [hplaces]
      rw [List.reverse_reverse] at hfront
      have hpieces : p.pieces = "" :: core ++ idles ++ [name] := by
        rw [hends, hfront]
        rfl
      have hbegins := Path.begins_of_core p ("" :: core) idles (List.cons_ne_nil _ _)
        (fun h => hcore (List.cons.inj h).2) hpieces hidles
      rw [String.intercalate_cons_of_ne_nil hcore, String.empty_append] at hbegins
      rw [hfront]
      show Begins (if "/" ++ "/".intercalate core = "" then _ else _) p ("" :: (core ++ idles))
      rw [if_neg hbegins.not_empty]
      exact hbegins
  · rw [Path.places_of_relative habs, hends, List.reverse_concat,
      Path.placesAbove_cons hname, List.map_cons, List.cons_append, List.drop_succ_cons,
      List.drop_zero]
    rcases Path.placesAbove_cases false front.reverse with
      ⟨hnone, hidle⟩ | ⟨core, idles, above, hplaces, hcore, hblank, hfront, hidles⟩
    · rw [hnone]
      refine ⟨by decide, .inr ⟨rfl, habs⟩, sameWay_of_idle ?_ fun i hi => ?_⟩
      · show ∀ i ∈ (["."] : List String), Idle i
        exact fun i hi => .inr (List.mem_singleton.1 hi)
      · exact hidle i (List.mem_reverse.2 hi)
    · rw [hplaces]
      rw [List.reverse_reverse] at hfront
      have hpieces : p.pieces = core ++ idles ++ [name] := by rw [hends, hfront]
      have hbegins := Path.begins_of_core p core idles hcore hblank hpieces hidles
      rw [hfront]
      show Begins (if "/".intercalate core = "" then _ else _) p (core ++ idles)
      rw [if_neg hbegins.not_empty]
      exact hbegins

/-- A path begins with the one to which its name was added. -/
theorem begins_child (d : Path) {name : String} (plain : Plain name) :
    ∃ front, EndsIn (d.child name) front name ∧
      (d.text = "" ∧ front = [] ∨ Begins d (d.child name) front) := by
  obtain ⟨front, hpieces, hempty | ⟨hempty, hfront⟩⟩ := d.pieces_child plain.single
  · exact ⟨front, ⟨hpieces, plain⟩, .inl hempty⟩
  refine ⟨front, ⟨hpieces, plain⟩, .inr ⟨hempty, .inl ?_, ?_⟩⟩
  · unfold Path.child Path.join
    rw [if_neg (Path.not_isAbsolute_of_single plain.single)]
    split
    · exact ⟨_, rfl⟩
    · exact ⟨"/" ++ name, String.append_assoc⟩
  · rcases hfront with h | h
    · rw [h]
      exact .refl front
    · exact ⟨front, [""], [], h, (List.append_nil _).symm, idle_singleton, fun _ h => by cases h⟩

end BuildMatrix
