import Mathlib.Tactic.IntervalCases
import Mathlib.Tactic.SplitIfs
import Abacus.Files.Basic

/-!
# Written files

A file that has been written can be read. The path that is shown to the user names the file that it
was made from, and what is written under that name is found again under the path.

## Main definitions

* `Path.Normal` — a path in its shortest spelling
* `Found.spot?` — the place that a search ends at, whether a file stands there or not

## Main results

* `Path.normal_ofString`, `Path.Normal.addSuffix` — paths that are read are in shortest spelling, and
  so is the path of a file beside them
* `Path.Normal.ofString_toText` — a path in shortest spelling is read back as it is shown
* `Files.load_set` — what was written to a file is what the file contains
-/

namespace Abacus

namespace Path

/-- A path in shortest spelling: no name is empty or stands for the directory itself, and at most two
slashes stand in front. -/
structure Normal (p : Path) : Prop where
  slashes_le : p.slashes ≤ 2
  name_ne_empty : ∀ name ∈ p.names, name ≠ ""
  name_ne_dot : ∀ name ∈ p.names, name ≠ "."
  slash_not_mem : ∀ name ∈ p.names, '/' ∉ name.toList

/-- No piece between the slashes of a text has a slash. -/
theorem slash_not_mem_of_mem_splitOn (text : List Char) :
    ∀ piece ∈ text.splitOn '/', '/' ∉ piece := by
  induction text with
  | nil => simp [List.splitOn_nil]
  | cons c text ih =>
    rw [List.splitOn_cons_eq_if_modifyHead]
    by_cases hc : (c == '/') = true
    · rw [if_pos hc]
      simpa using ih
    · rw [if_neg hc]
      -- the character goes in front of the first piece
      rcases hpieces : text.splitOn '/' with _ | ⟨first, others⟩
      · simp
      · rw [hpieces] at ih
        intro piece hmem
        rw [List.modifyHead_cons, List.mem_cons] at hmem
        rcases hmem with rfl | hmem
        · have hfirst := ih first List.mem_cons_self
          simp only [beq_iff_eq] at hc
          simp [hfirst, Ne.symm hc]
        · exact ih piece (List.mem_cons_of_mem _ hmem)

/-- Every path that is read is in shortest spelling. -/
theorem normal_ofString (text : String) : (ofString text).Normal where
  slashes_le := by
    simp only [ofString, leadingSlashes]
    split <;> decide
  name_ne_empty name h := by
    simp only [ofString, List.mem_filter, decide_eq_true_eq] at h
    exact h.2.1
  name_ne_dot name h := by
    simp only [ofString, List.mem_filter, decide_eq_true_eq] at h
    exact h.2.2
  slash_not_mem name h := by
    have hmem : name ∈ split text := (List.mem_filter.mp h).1
    obtain ⟨piece, hpiece, rfl⟩ := List.mem_map.mp hmem
    rw [String.toList_ofList]
    exact slash_not_mem_of_mem_splitOn _ _ hpiece

theorem addSuffix_names_ne_nil {p : Path} (hne : p.names ≠ []) (suffix : String) :
    (p.addSuffix suffix).names ≠ [] := by
  rw [addSuffix, List.getLast?_eq_some_getLast hne]
  simp

/-- A path beside one in shortest spelling is in shortest spelling, if what is added to the name has no
slash and is longer than a dot. -/
theorem Normal.addSuffix {p : Path} (hp : p.Normal) {suffix : String} (hslash : '/' ∉ suffix.toList)
    (hlong : 1 < suffix.toList.length) : (p.addSuffix suffix).Normal := by
  rcases hlast : p.names.getLast? with _ | last
  · simpa only [Path.addSuffix, hlast] using hp
  · have hmem {name : String} (h : name ∈ (p.addSuffix suffix).names) :
        name ∈ p.names ∨ name = last ++ suffix := by
      simp only [Path.addSuffix, hlast, List.mem_append, List.mem_singleton] at h
      exact h.imp_left (List.dropLast_subset _ ·)
    have hlength : (last ++ suffix).toList.length = last.toList.length + suffix.toList.length := by
      rw [String.toList_append, List.length_append]
    refine ⟨by simpa only [Path.addSuffix, hlast] using hp.slashes_le, fun name h => ?_,
      fun name h => ?_, fun name h => ?_⟩
    all_goals rcases hmem h with hold | rfl
    · exact hp.name_ne_empty name hold
    · intro hempty
      rw [hempty] at hlength
      simp at hlength
      omega
    · exact hp.name_ne_dot name hold
    · intro hdot
      rw [hdot, show (".".toList).length = 1 from rfl] at hlength
      omega
    · exact hp.slash_not_mem name hold
    · have hslash' : '/' ∉ last.toList := hp.slash_not_mem last (List.mem_of_getLast? hlast)
      rw [String.toList_append, List.mem_append, not_or]
      exact ⟨hslash', hslash⟩

/-- The slashes in front of a text only add empty pieces. -/
theorem filter_splitOn_replicate (n : Nat) (text : List Char) :
    ((List.replicate n '/' ++ text).splitOn '/').filter (· ≠ []) =
      (text.splitOn '/').filter (· ≠ []) := by
  induction n with
  | zero => rfl
  | succ n ih =>
    rw [List.replicate_succ, List.cons_append, List.splitOn_cons_eq_if_modifyHead]
    simpa using ih

theorem toList_toText {p : Path} (hne : p.names ≠ []) :
    p.toText.toList =
      List.replicate p.slashes '/' ++ ['/'].intercalate (p.names.map String.toList) := by
  rw [toText, if_neg (by simp [hne]), String.toList_append, String.toList_ofList,
    String.toList_intercalate]
  rfl

/-- The names of a path are the pieces between the slashes of its text. -/
theorem Normal.filter_split_toText {p : Path} (hp : p.Normal) (hne : p.names ≠ []) :
    (split p.toText).filter (· ≠ "") = p.names := by
  have hempty : (fun name : String => decide (name ≠ "")) ∘ String.ofList =
      fun piece : List Char => decide (piece ≠ []) := by
    funext piece
    simp
  have hpieces : (['/'].intercalate (p.names.map String.toList)).splitOn '/' =
      p.names.map String.toList := by
    apply List.splitOn_intercalate
    · simpa using hp.slash_not_mem
    · simpa using hne
  rw [split, List.filter_map, hempty, toList_toText hne, filter_splitOn_replicate, hpieces,
    List.filter_eq_self.mpr]
  · rw [List.map_map]
    simp
  · simpa using hp.name_ne_empty

/-- The slashes in front of a path are those in front of its text. -/
theorem Normal.leadingSlashes_toText {p : Path} (hp : p.Normal) (hne : p.names ≠ []) :
    leadingSlashes p.toText = p.slashes := by
  -- the first name begins with another character
  have hbody : (['/'].intercalate (p.names.map String.toList)).takeWhile (· = '/') = [] := by
    obtain ⟨first, others, hnames⟩ := List.exists_cons_of_ne_nil hne
    have hfirst : first ∈ p.names := hnames ▸ List.mem_cons_self
    obtain ⟨c, cs, hcs⟩ : ∃ c cs, first.toList = c :: cs :=
      List.exists_cons_of_ne_nil (by simpa using hp.name_ne_empty first hfirst)
    have hc : c ≠ '/' := by
      rintro rfl
      exact hp.slash_not_mem first hfirst (hcs ▸ List.mem_cons_self)
    rcases others with _ | ⟨next, others⟩
    · simp [hnames, hcs, hc]
    · simp [hnames, hcs, hc, List.intercalate_cons_cons]
  have htake : p.toText.toList.takeWhile (· = '/') = List.replicate p.slashes '/' := by
    rw [toList_toText hne, List.takeWhile_append, hbody, List.append_nil]
    simp
  have hle := hp.slashes_le
  rw [leadingSlashes, htake, List.length_replicate]
  interval_cases p.slashes <;> rfl

/-- A path that has a name is read back as it is shown. -/
theorem Normal.ofString_toText {p : Path} (hp : p.Normal) (hne : p.names ≠ []) :
    ofString p.toText = p := by
  have hsplit : (split p.toText).filter (fun name => name ≠ "" ∧ name ≠ ".") = p.names := calc
    _ = ((split p.toText).filter (· ≠ "")).filter (· ≠ ".") := by
      rw [List.filter_filter]
      apply List.filter_congr
      intro name _
      simp [Bool.and_comm]
    _ = p.names.filter (· ≠ ".") := by rw [hp.filter_split_toText hne]
    _ = p.names := List.filter_eq_self.mpr (by simpa using hp.name_ne_dot)
  rw [ofString, hp.leadingSlashes_toText hne, hsplit]

end Path

namespace Found

/-- The place that a search ends at, whether a file stands there or not. -/
def spot? : Found → Option Place
  | .file place | .vacant place => some place
  | .directory | .missing | .blocked | .tooLong => none

end Found

namespace Files

variable {fs : Files} {place here : Place} {names : List String}

/-- Writing the entry of a place makes it the one that is found there. -/
theorem lookup_write_self (place : Place) (contents : List UInt8)
    (entries : List (Place × List UInt8)) :
    (write place contents entries).lookup place = some contents := by
  induction entries with
  | nil => simp [write]
  | cons entry entries ih =>
    rw [write]
    by_cases h : entry.1 = place
    · rw [if_pos h]
      simp [h]
    · rw [if_neg h, List.lookup_cons, beq_false_of_ne (Ne.symm h)]
      exact ih

/-- Writing the entry of a place leaves all others. -/
theorem lookup_write_of_ne {place other : Place} (h : other ≠ place) (contents : List UInt8)
    (entries : List (Place × List UInt8)) :
    (write place contents entries).lookup other = entries.lookup other := by
  induction entries with
  | nil => rw [write, List.lookup_cons, beq_false_of_ne h]
  | cons entry entries ih =>
    rw [write]
    by_cases hentry : entry.1 = place
    · rw [if_pos hentry, List.lookup_cons, List.lookup_cons, hentry, beq_false_of_ne h]
    · rw [if_neg hentry, List.lookup_cons, List.lookup_cons, ih]

/-- Every place that has an entry keeps one. -/
theorem exists_mem_write {entry : Place × List UInt8} {entries : List (Place × List UInt8)}
    (h : entry ∈ entries) (place : Place) (contents : List UInt8) :
    ∃ bytes, (entry.1, bytes) ∈ write place contents entries := by
  induction entries with
  | nil => cases h
  | cons first entries ih =>
    rw [write]
    rcases List.mem_cons.mp h with rfl | h
    · split_ifs
      · exact ⟨contents, List.mem_cons_self⟩
      · exact ⟨entry.2, List.mem_cons_self⟩
    · split_ifs
      · exact ⟨entry.2, List.mem_cons_of_mem _ h⟩
      · obtain ⟨bytes, hmem⟩ := ih h
        exact ⟨bytes, List.mem_cons_of_mem _ hmem⟩

theorem lookup_set_self (fs : Files) (place : Place) (contents : List UInt8) :
    (fs.set place contents).lookup place = some contents :=
  lookup_write_self place contents fs.entries

theorem lookup_set_of_ne {other : Place} (h : other ≠ place) (contents : List UInt8) :
    (fs.set place contents).lookup other = fs.lookup other :=
  lookup_write_of_ne h contents fs.entries

/-- A directory stays one when a file is written. -/
theorem isDirectory_set {directory : Place} (h : fs.isDirectory directory = true) (place : Place)
    (contents : List UInt8) : (fs.set place contents).isDirectory directory = true := by
  rw [isDirectory, Bool.or_eq_true] at h ⊢
  refine h.imp_right fun hany => ?_
  obtain ⟨entry, hmem, hbelow⟩ := List.any_eq_true.mp hany
  obtain ⟨bytes, hmem'⟩ := exists_mem_write hmem place contents
  exact List.any_eq_true.mpr ⟨_, hmem', hbelow⟩

/-- A search that ends at a place finds a file there, or no directory. -/
theorem isSome_lookup_of_spot (h : (fs.findFrom here names).spot? = some place) :
    (fs.lookup place).isSome = true ∨ fs.isDirectory place = false := by
  fun_induction findFrom fs here names with
  | case1 => cases h
  | _ => grind [Found.spot?]

/-- After a file has been written where a search ends, the search finds it. -/
theorem findFrom_set (h : (fs.findFrom here names).spot? = some place) (contents : List UInt8) :
    (fs.set place contents).findFrom here names = .file place := by
  have hself := lookup_set_self fs place contents
  fun_induction findFrom fs here names with
  | case1 => cases h
  | case2 here names ih => rw [findFrom, if_pos rfl, ih h]
  | case3 here names _ ih => rw [findFrom, if_neg (by decide), if_pos rfl, ih h]
  | case4 => cases h
  | case5 here name names hdot hup hsize next _ hlast =>
    obtain rfl : next = place := Option.some.inj h
    simp only [findFrom, hdot, hup, hsize, if_false]
    rw [hself, Option.isSome_some, if_pos rfl, if_pos hlast]
  | case6 => cases h
  | case7 here name names hdot hup hsize next hfile hdir ih =>
    -- the place is not this directory, because a search does not end at one
    have hne : next ≠ place := by
      rintro rfl
      rcases isSome_lookup_of_spot h with hfile' | hdir'
      · exact hfile hfile'
      · rw [hdir] at hdir'
        cases hdir'
    simp only [findFrom, hdot, hup, hsize, if_false]
    rw [lookup_set_of_ne hne, if_neg hfile, if_pos (isDirectory_set hdir place contents), ih h]
  | case8 here name names hdot hup hsize next _ _ hlast =>
    obtain rfl : next = place := Option.some.inj h
    simp only [findFrom, hdot, hup, hsize, if_false]
    rw [hself, Option.isSome_some, if_pos rfl, if_pos hlast]
  | case9 => cases h

/-- A name under which a file can be written leads to a place where a file can stand. -/
theorem spot_of_target {name : String} (h : fs.target name = .ok place) :
    hasNull name = false ∧ ¬ maxPathSize < name.utf8ByteSize ∧
      (fs.find name ((Path.split name).filter (· ≠ ""))).spot? = some place := by
  rw [target] at h
  by_cases hnull : hasNull name = true
  · rw [if_pos hnull] at h
    cases h
  rw [if_neg hnull] at h
  refine ⟨by simpa using hnull, fun hsize => ?_, ?_⟩
  · rw [find, if_pos hsize] at h
    cases h
  · cases hfind : fs.find name ((Path.split name).filter (· ≠ "")) with
    | file found | vacant found =>
      rw [hfind] at h
      dsimp only at h
      split_ifs at h
      cases h
      rfl
    | directory | missing | blocked | tooLong =>
      rw [hfind] at h
      cases h

/-- What was written under the text of a path is what the file at the path contains. -/
theorem load_set {path : Path} (hp : path.Normal) (hne : path.names ≠ [])
    (h : fs.target path.toText = .ok place) (contents : List UInt8) :
    (fs.set place contents).load path = .ok contents := by
  obtain ⟨hnull, hsize, hspot⟩ := spot_of_target h
  rw [hp.filter_split_toText hne, find, if_neg hsize] at hspot
  have hfind : (fs.set place contents).find path.toText path.names = .file place := by
    rw [find, if_neg hsize, findFrom_set hspot contents]
  simp [load, hnull, hfind, lookup_set_self]

/-- A file that is read has a name. -/
theorem names_ne_nil_of_load {path : Path} {contents : List UInt8}
    (h : fs.load path = .ok contents) : path.names ≠ [] := by
  intro hnil
  simp only [load, hnil, find, findFrom] at h
  split_ifs at h

end Files

end Abacus
