import Mathlib.Algebra.Order.BigOperators.Group.List
import Mathlib.Algebra.Order.Group.Nat
import Mathlib.Algebra.Ring.Nat
import Mathlib.Data.List.Induction
import TracedText.Disk.Medium
import TracedText.Proofs.Outcomes

/-! # Files stay where they are put

A path is followed through directories only, so it leads to the same place as long as no directory
goes away (`follow_of_keeps`), and no operation takes one away.  The place that a path leads to is
the path without its double dots (`follow_eq_resolve`), and followed as a path it leads to itself
(`follow_self`).  So two files that were put beside one another are both found, the second one also
by its name in the resolved directory of the first (`read_stored`).  Paths are taken in a directory
that has a root (`Path.within`), and then the resolved path is no longer than the one it was. -/

namespace TracedText

/-! ### Texts of paths -/

namespace Path

theorem resolveParts_concat (parts : List String) (name : String) :
    resolveParts (parts ++ [name]) =
      if name = ".." then (resolveParts parts).dropLast else resolveParts parts ++ [name] := by
  simp only [resolveParts, List.foldl_append, List.foldl_cons, List.foldl_nil, beq_iff_eq]

theorem utf8ByteSize_intercalate {names : List String} (h : names ≠ []) :
    ("/".intercalate names).utf8ByteSize + 1 =
      (names.map String.utf8ByteSize).sum + names.length := by
  induction names with
  | nil => exact absurd rfl h
  | cons name names ih =>
      cases names with
      | nil => simp
      | cons other others =>
          have hrest := ih (List.cons_ne_nil _ _)
          have hslash : "/".utf8ByteSize = 1 := rfl
          rw [String.intercalate_cons_cons, String.utf8ByteSize_append, String.utf8ByteSize_append,
            hslash, List.map_cons, List.sum_cons, List.length_cons]
          omega

theorem utf8ByteSize_toString {root : PathRoot} {names : List String} (h : names ≠ []) :
    (toString ⟨root, names⟩).utf8ByteSize =
      root.text.utf8ByteSize + ("/".intercalate names).utf8ByteSize := by
  unfold toString
  split
  · rename_i hnames
    exact absurd hnames h
  · exact String.utf8ByteSize_append

theorem utf8ByteSize_intercalate_le {names given : List String} (h : names.Sublist given)
    (hne : names ≠ []) :
    ("/".intercalate names).utf8ByteSize ≤ ("/".intercalate given).utf8ByteSize := by
  have hgiven : given ≠ [] := by
    rintro rfl
    exact hne (List.sublist_nil.mp h)
  have hnames := utf8ByteSize_intercalate hne
  have hall := utf8ByteSize_intercalate hgiven
  have hlength := h.length_le
  have hsum := (h.map String.utf8ByteSize).sum_le_sum (by simp)
  omega

theorem resolveParts_sublist (parts : List String) : (resolveParts parts).Sublist parts := by
  induction parts using List.reverseRecOn with
  | nil => exact List.Sublist.slnil
  | append_singleton parts name ih =>
      rw [resolveParts_concat]
      split
      · exact ((List.dropLast_sublist _).trans ih).trans (List.sublist_append_left _ _)
      · exact ih.append (List.Sublist.refl _)

theorem notMem_of_mem_splitOn {sep : Char} {t part : List Char} (h : part ∈ t.splitOn sep) :
    sep ∉ part := by
  induction t generalizing part with
  | nil =>
      rw [List.mem_singleton.mp h]
      exact List.not_mem_nil
  | cons c t ih =>
      rw [List.splitOn_cons_eq_if_modifyHead] at h
      split at h
      · rcases List.mem_cons.mp h with rfl | h
        · exact List.not_mem_nil
        · exact ih h
      · rename_i hc
        obtain ⟨head, tail, hsplit⟩ := List.exists_cons_of_ne_nil (List.splitOn_ne_nil sep t)
        rw [hsplit, List.modifyHead_cons] at h
        rcases List.mem_cons.mp h with rfl | h
        · rw [List.mem_cons, not_or]
          exact ⟨fun heq => hc (beq_iff_eq.mpr heq.symm), ih (hsplit ▸ List.mem_cons_self)⟩
        · exact ih (hsplit ▸ List.mem_cons_of_mem _ h)

theorem slash_notMem_of_mem_parts {s part : String} (h : part ∈ (ofString s).parts) :
    '/' ∉ part.toList := by
  obtain ⟨characters, hmem, rfl⟩ := List.mem_map.mp h
  rw [String.toList_ofList]
  exact notMem_of_mem_splitOn (List.mem_filter.mp hmem).1

/-- The path that a text spells in a directory. -/
def within (directory path : String) : Path := (ofString directory).join (ofString path)

theorem within_root {directory : String} (h : (ofString directory).root ≠ .relative)
    (path : String) : (within directory path).root ≠ .relative := by
  unfold within join
  split
  · exact h
  · assumption

theorem slash_notMem_of_mem_within {directory path part : String}
    (h : part ∈ (within directory path).parts) : '/' ∉ part.toList := by
  unfold within join at h
  split at h
  · rcases List.mem_append.mp h with h | h
    · exact slash_notMem_of_mem_parts h
    · exact slash_notMem_of_mem_parts h
  · exact slash_notMem_of_mem_parts h

theorem ofString_name {name : String} (hslash : '/' ∉ name.toList) (hne : name.toList ≠ [])
    (hdot : name.toList ≠ ['.']) : ofString name = ⟨.relative, [name]⟩ := by
  have hroot : rootOf name.toList = .relative := by
    unfold rootOf
    split
    · rename_i h
      exact absurd (h ▸ List.mem_cons_self) hslash
    · rename_i h
      exact absurd (h ▸ List.mem_cons_self) hslash
    · rename_i h
      exact absurd (h ▸ List.mem_cons_self) hslash
    · rfl
  rw [ofString, hroot, List.splitOn_eq_singleton hslash]
  simp [hne, hdot]

end Path

namespace Disk
variable {d made : Disk}

/-! ### Following paths -/

/-- Every directory of a disk is one of another. -/
def Keeps (d made : Disk) : Prop := ∀ l, d l = some .directory → made l = some .directory

theorem follow_of_keeps (h : Keeps d made) {start location : Location} {parts : List String}
    (hfollow : d.follow start parts = .ok location) : made.follow start parts = .ok location := by
  fun_induction follow d start parts with
  | case1 => exact hfollow
  | case2 => exact nomatch hfollow
  | case3 => exact nomatch hfollow
  | case4 start part rest hdirectory hup ih =>
      rw [follow, h start hdirectory, if_pos hup]
      exact ih hfollow
  | case5 => exact nomatch hfollow
  | case6 start part rest hdirectory hup hlength ih =>
      rw [follow, h start hdirectory, if_neg hup, if_neg hlength]
      exact ih hfollow

theorem follow_append (start : Location) (front back : List String) :
    d.follow start (front ++ back) =
      (d.follow start front >>= fun l => d.follow l back) := by
  induction front generalizing start with
  | nil => rfl
  | cons part front ih =>
      rw [List.cons_append, follow, follow]
      split
      · rfl
      · rfl
      · split_ifs
        · exact ih _
        · rfl
        · exact ih _

theorem follow_singleton {start location : Location} {name : String} :
    d.follow start [name] = .ok location ↔ d start = some .directory ∧
      (if name = ".." then location = start.dropLast
        else name.utf8ByteSize ≤ 255 ∧ location = start ++ [name]) := by
  rw [follow]
  split
  · rename_i hnode
    exact ⟨nofun, fun h => nomatch hnode ▸ h.1⟩
  · rename_i hnode
    exact ⟨nofun, fun h => nomatch hnode ▸ h.1⟩
  · rename_i hnode
    simp only [hnode, true_and, beq_iff_eq, follow]
    split_ifs with hup hlong
    · exact ⟨fun h => (Except.ok.inj h).symm, fun h => congrArg Except.ok h.symm⟩
    · exact ⟨nofun, fun h => absurd h.1 (by omega)⟩
    · exact ⟨fun h => ⟨by omega, (Except.ok.inj h).symm⟩, fun h => congrArg Except.ok h.2.symm⟩

theorem follow_concat {start location : Location} {parts : List String} {name : String} :
    d.follow start (parts ++ [name]) = .ok location ↔
      ∃ l, d.follow start parts = .ok l ∧ d l = some .directory ∧
        (if name = ".." then location = l.dropLast
          else name.utf8ByteSize ≤ 255 ∧ location = l ++ [name]) := by
  rw [follow_append, bind_eq_ok]
  simp only [follow_singleton]

theorem length_of_follow {start location : Location} {parts : List String}
    (h : d.follow start parts = .ok location) : location.length ≤ start.length + parts.length := by
  induction parts using List.reverseRecOn generalizing location with
  | nil => rw [Except.ok.inj h]; omega
  | append_singleton parts name ih =>
      obtain ⟨l, hl, _, hlast⟩ := follow_concat.mp h
      have := ih hl
      split at hlast
      · rw [hlast, List.length_dropLast, List.length_append]
        omega
      · rw [hlast.2]
        simp only [List.length_append, List.length_singleton]
        omega

/-- A place found by its own names is in a directory found by its own names. -/
theorem follow_front {front : Location} {name : String}
    (h : d.follow [] (front ++ [name]) = .ok (front ++ [name])) :
    d.follow [] front = .ok front ∧ d front = some .directory := by
  obtain ⟨l, hl, hdirectory, hlast⟩ := follow_concat.mp h
  have hfront : l = front := by
    split at hlast
    · have hlength := length_of_follow hl
      have hcut := congrArg List.length hlast
      rw [List.length_append, List.length_singleton, List.length_dropLast] at hcut
      rw [List.length_nil] at hlength
      omega
    · exact (List.append_inj_left' hlast.2 rfl).symm
  rw [hfront] at hl hdirectory
  exact ⟨hl, hdirectory⟩

theorem follow_self {parts : List String} {location : Location}
    (h : d.follow [] parts = .ok location) : d.follow [] location = .ok location := by
  induction parts using List.reverseRecOn generalizing location with
  | nil =>
      rw [← Except.ok.inj h]
      rfl
  | append_singleton parts name ih =>
      obtain ⟨l, hl, hdirectory, hlast⟩ := follow_concat.mp h
      have hself := ih hl
      split at hlast
      · rw [hlast]
        cases l using List.reverseRecOn with
        | nil => rfl
        | append_singleton front last =>
            rw [List.dropLast_concat]
            exact (follow_front hself).1
      · rw [hlast.2]
        refine follow_concat.mpr ⟨l, hself, hdirectory, ?_⟩
        rw [if_neg ‹_›]
        exact ⟨hlast.1, rfl⟩

/-- The place that a path leads to is the path without its double dots. -/
theorem follow_eq_resolve {parts : List String} {location : Location}
    (h : d.follow [] parts = .ok location) : location = Path.resolveParts parts := by
  induction parts using List.reverseRecOn generalizing location with
  | nil => exact (Except.ok.inj h).symm
  | append_singleton parts name ih =>
      obtain ⟨l, hl, _, hlast⟩ := follow_concat.mp h
      rw [Path.resolveParts_concat, ← ih hl]
      split at hlast
      · rw [if_pos ‹_›, hlast]
      · rw [if_neg ‹_›, hlast.2]

/-- What is no directory was not reached by going up. -/
theorem follow_name {parts : List String} {name : String} {location : Location}
    (h : d.follow [] (parts ++ [name]) = .ok location) (hnode : d location ≠ some .directory) :
    ∃ l, d.follow [] parts = .ok l ∧ d l = some .directory ∧ name ≠ ".." ∧
      name.utf8ByteSize ≤ 255 ∧ location = l ++ [name] := by
  obtain ⟨l, hl, hdirectory, hlast⟩ := follow_concat.mp h
  split at hlast
  · refine absurd ?_ hnode
    rw [hlast]
    cases l using List.reverseRecOn with
    | nil => exact hdirectory
    | append_singleton front last =>
        rw [List.dropLast_concat]
        exact (follow_front (follow_self hl)).2
  · exact ⟨l, hl, hdirectory, ‹_›, hlast.1, hlast.2⟩

/-! ### Writing -/

/-- Whatever stands on a disk stands on another. -/
def Extends (d made : Disk) : Prop := ∀ l node, d l = some node → made l = some node

theorem Extends.keeps (h : Extends d made) : Keeps d made := fun l => h l .directory

theorem set_keeps {location : Location} (h : d location ≠ some .directory) (node : Node) :
    Keeps d (d.set location node) := by
  intro l hl
  have hne : l ≠ location := by
    rintro rfl
    exact h hl
  rw [set_ne d node hne]
  exact hl

theorem Grows.extends (h : Grows d made) : Extends d made := by
  intro l node hl
  rcases h l with hsame | ⟨hnone, _⟩
  · rw [hsame, hl]
  · rw [hl] at hnone
    exact nomatch hnone

theorem Grows.file_iff (h : Grows d made) (l : Location) (bytes : ByteArray) :
    made l = some (.file bytes) ↔ d l = some (.file bytes) := by
  rcases h l with hsame | ⟨hnone, hmade⟩
  · rw [hsame]
  · rw [hnone, hmade]
    exact iff_of_false nofun nofun

theorem locate_eq_ok {p : Path} {location : Location} :
    d.locate p = .ok location ↔ p.hasZero = false ∧ p.toString.utf8ByteSize ≤ 4095 ∧
      d.follow [] p.parts = .ok location := by
  unfold locate
  split_ifs with hzero hlong
  · exact ⟨nofun, fun h => absurd hzero (by simp [h.1])⟩
  · exact ⟨nofun, fun h => absurd h.2.1 (by omega)⟩
  · exact ⟨fun h => ⟨by simpa using hzero, by omega, h⟩, fun h => h.2.2⟩

theorem locate_of_keeps (h : Keeps d made) {p : Path} {location : Location}
    (hlocate : d.locate p = .ok location) : made.locate p = .ok location := by
  obtain ⟨hzero, hlength, hfollow⟩ := locate_eq_ok.mp hlocate
  exact locate_eq_ok.mpr ⟨hzero, hlength, follow_of_keeps h hfollow⟩

theorem put_eq_ok {p : Path} {bytes : ByteArray} :
    d.put p bytes = .ok made ↔ ∃ location, d.locate p = .ok location ∧
      d location ≠ some .directory ∧ made = d.set location (.file bytes) := by
  rw [put, bind_eq_ok]
  refine exists_congr fun location => and_congr_right fun _ => ?_
  split
  · rename_i hnode
    exact ⟨nofun, fun h => absurd hnode h.1⟩
  · rename_i hnode
    exact ⟨fun h => ⟨hnode, (Except.ok.inj h).symm⟩, fun h => congrArg Except.ok h.2.symm⟩

theorem read_eq_ok {p : Path} {bytes : ByteArray} :
    d.read p = .ok bytes ↔ ∃ location, d.locate p = .ok location ∧
      d location = some (.file bytes) := by
  rw [read, bind_eq_ok]
  refine exists_congr fun location => and_congr_right fun _ => ?_
  split
  · rename_i hnode
    exact ⟨nofun, fun h => nomatch hnode ▸ h⟩
  · rename_i hnode
    exact ⟨nofun, fun h => nomatch hnode ▸ h⟩
  · rename_i found hnode
    rw [hnode]
    constructor
    · intro h
      rw [Except.ok.inj h]
    · intro h
      rw [Node.file.inj (Option.some.inj h)]
      rfl

theorem read_put {p : Path} {bytes : ByteArray} (h : d.put p bytes = .ok made) :
    made.read p = .ok bytes := by
  obtain ⟨location, hlocate, hnode, rfl⟩ := put_eq_ok.mp h
  exact read_eq_ok.mpr ⟨location, locate_of_keeps (set_keeps hnode _) hlocate, set_same _ _ _⟩

/-! ### What a write leaves -/

/-- The directories of a disk are there on another, and so are its files and no others, apart from the
one that a path leads to. -/
structure KeepsBut (d left : Disk) (p : Path) : Prop where
  directories : Keeps d left
  files : ∀ l, left.locate p ≠ .ok l →
    ∀ bytes, left l = some (.file bytes) ↔ d l = some (.file bytes)

section
variable {left ready : Disk} {p : Path}

theorem Grows.keepsBut (h : Grows d left) : d.KeepsBut left p :=
  ⟨h.extends.keeps, fun l _ => h.file_iff l⟩

theorem Grows.trans_keepsBut (h : Grows d ready) (hleft : ready.KeepsBut left p) :
    d.KeepsBut left p :=
  ⟨fun l hl => hleft.directories l (h.extends.keeps l hl),
    fun l hl bytes => (hleft.files l hl bytes).trans (h.file_iff l bytes)⟩

theorem put_keepsBut {bytes : ByteArray} (h : d.put p bytes = .ok left) : d.KeepsBut left p := by
  obtain ⟨location, hlocate, hnode, rfl⟩ := put_eq_ok.mp h
  have hkeeps := set_keeps hnode (.file bytes)
  refine ⟨hkeeps, fun l hl other => ?_⟩
  have hne : l ≠ location := by
    rintro rfl
    exact hl (locate_of_keeps hkeeps hlocate)
  rw [set_ne _ _ hne]

/-- A file is read as before when the path of the other one leads elsewhere. -/
theorem KeepsBut.read (h : d.KeepsBut left p) {q : Path} {bytes : ByteArray}
    (hread : d.read q = .ok bytes) (hapart : ∀ l, left.locate q = .ok l → left.locate p ≠ .ok l) :
    left.read q = .ok bytes := by
  obtain ⟨location, hlocate, hnode⟩ := read_eq_ok.mp hread
  have hstill := locate_of_keeps h.directories hlocate
  exact read_eq_ok.mpr
    ⟨location, hstill, (h.files location (hapart location hstill) bytes).mpr hnode⟩

end

end Disk

namespace Medium
variable {ε : Type} {m : Medium} {ofDisk : DiskError → ε} {d left : Disk} {p : Path}

theorem put_keepsBut {bytes : ByteArray} {result : Except DiskError Unit}
    (h : m.put d p bytes = (result, left)) : d.KeepsBut left p := by
  cases result with
  | ok => exact Disk.put_keepsBut (m.put_ok h)
  | error error =>
      rcases m.put_error h with rfl | ⟨part, hput⟩
      · exact (Disk.Grows.refl left).keepsBut
      · exact Disk.put_keepsBut hput

/-- However a write ends, it leaves all that is not its own file. -/
theorem write_keepsBut {bytes : Except ε ByteArray} {result : Except ε Unit}
    (h : m.write ofDisk d p bytes = (result, left)) : d.KeepsBut left p := by
  have hgrows := m.ensureParent_grows d p
  unfold write at h
  split at h
  · rename_i hfailed
    rw [hfailed, (Prod.mk.inj h).2] at hgrows
    exact hgrows.keepsBut
  · rename_i made hmade
    rw [hmade] at hgrows
    split at h
    · rw [(Prod.mk.inj h).2] at hgrows
      exact hgrows.keepsBut
    · rename_i given
      have hput : m.put made p given = ((m.put made p given).1, left) := by
        rw [← (Prod.mk.inj h).2]
      exact hgrows.trans_keepsBut (put_keepsBut hput)

/-- A write that succeeds had bytes and put them on a disk with more directories. -/
theorem write_eq_ok {bytes : Except ε ByteArray} (h : m.write ofDisk d p bytes = (.ok (), left)) :
    ∃ given opened, bytes = .ok given ∧ d.Grows opened ∧ opened.put p given = .ok left := by
  have hgrows := m.ensureParent_grows d p
  unfold write at h
  split at h
  · exact nomatch h
  · rename_i made hmade
    rw [hmade] at hgrows
    split at h
    · exact nomatch h
    · rename_i given
      obtain ⟨hresult, hleft⟩ := Prod.mk.inj h
      have hput : m.put made p given = (.ok (), left) :=
        Prod.ext (mapError_eq_ok.mp hresult) hleft
      exact ⟨given, made, rfl, hgrows, m.put_ok hput⟩

/-- A write that has not reached its file made directories at most. -/
theorem write_grows {bytes : Except ε ByteArray} {result : Except ε Unit}
    (h : m.write ofDisk d p bytes = (result, left))
    (hunbegun : (∃ error, (m.ensureParent d p).1 = .error error) ∨ ∃ error, bytes = .error error) :
    d.Grows left := by
  have hgrows := m.ensureParent_grows d p
  unfold write at h
  split at h
  · rename_i hfailed
    rw [hfailed, (Prod.mk.inj h).2] at hgrows
    exact hgrows
  · rename_i made hmade
    rw [hmade] at hgrows hunbegun
    split at h
    · rw [(Prod.mk.inj h).2] at hgrows
      exact hgrows
    · rcases hunbegun with ⟨error, herror⟩ | ⟨error, herror⟩
      · exact nomatch herror
      · exact nomatch herror

end Medium

namespace Disk
variable {d made : Disk}

/-! ### Files beside one another -/

section
variable {ready stored : Disk} {root : PathRoot} {front : List String} {name beside : String}
  {bytes other : ByteArray}

theorem put_place (h : d.put ⟨root, front ++ [name]⟩ bytes = .ok made) :
    ∃ l, d.follow [] front = .ok l ∧ d l = some .directory ∧ name ≠ ".." ∧
      name.utf8ByteSize ≤ 255 ∧ d.locate ⟨root, front ++ [name]⟩ = .ok (l ++ [name]) ∧
      Keeps d made ∧ made = d.set (l ++ [name]) (.file bytes) := by
  obtain ⟨location, hlocate, hnode, rfl⟩ := put_eq_ok.mp h
  obtain ⟨l, hl, hdirectory, hname, hsize, rfl⟩ := follow_name (locate_eq_ok.mp hlocate).2.2 hnode
  exact ⟨l, hl, hdirectory, hname, hsize, hlocate, set_keeps hnode _, rfl⟩

/-- A name in the resolved directory of a path that can be located makes a path that is no longer,
since the slash in front was there. -/
theorem locate_beside {l : Location}
    (hlocate : d.locate ⟨root, front ++ [beside]⟩ = .ok (l ++ [beside]))
    (hl : d.follow [] front = .ok l) (hdirectory : d l = some .directory)
    (hup : beside ≠ "..") (hsize : beside.utf8ByteSize ≤ 255)
    (hroot : root ≠ .relative) :
    d.locate ⟨.single, l ++ [beside]⟩ = .ok (l ++ [beside]) := by
  obtain ⟨hzero, hlength, _⟩ := locate_eq_ok.mp hlocate
  have hsub : (l ++ [beside]).Sublist (front ++ [beside]) := by
    rw [follow_eq_resolve hl]
    exact (Path.resolveParts_sublist front).append (List.Sublist.refl _)
  refine locate_eq_ok.mpr ⟨?_, ?_, ?_⟩
  · rw [Path.hasZero, List.any_eq_false] at hzero ⊢
    exact fun part hpart => hzero part (hsub.mem hpart)
  · have hle := Path.utf8ByteSize_intercalate_le hsub (by simp)
    rw [Path.utf8ByteSize_toString (by simp)] at hlength ⊢
    have hslash : PathRoot.single.text.utf8ByteSize = 1 := rfl
    have hslashes : PathRoot.double.text.utf8ByteSize = 2 := rfl
    cases root with
    | relative => exact absurd rfl hroot
    | single => omega
    | double => omega
  · refine follow_concat.mpr ⟨l, follow_self hl, hdirectory, ?_⟩
    rw [if_neg hup]
    exact ⟨hsize, rfl⟩

/-- A file is still read where it was put when another one was put beside it. -/
theorem read_front (hput : d.put ⟨root, front ++ [name]⟩ bytes = .ok made)
    (hready : Extends made ready) (hother : ready.put ⟨root, front ++ [beside]⟩ other = .ok stored)
    (hne : name ≠ beside) : stored.read ⟨root, front ++ [name]⟩ = .ok bytes := by
  obtain ⟨l, hl, _, _, _, hlocate, hkeeps, hmade⟩ := put_place hput
  obtain ⟨m, hm, _, _, _, _, hkeepsBeside, hstored⟩ := put_place hother
  have hall : Keeps d ready := fun x hx => hready.keeps x (hkeeps x hx)
  obtain rfl : l = m := Except.ok.inj ((follow_of_keeps hall hl).symm.trans hm)
  have hplaces : l ++ [name] ≠ l ++ [beside] := by
    intro h
    exact hne (List.singleton_inj.mp (List.append_cancel_left h))
  refine read_eq_ok.mpr ⟨l ++ [name], ?_, ?_⟩
  · exact locate_of_keeps hkeepsBeside (locate_of_keeps hall hlocate)
  · rw [hstored, set_ne _ _ hplaces]
    apply hready _ _
    rw [hmade, set_same]

/-- Two names lead from one directory to two places. -/
theorem locate_withName_ne {p : Path} (hname : p.name? = some name) (hne : name ≠ beside)
    {l : Location} (h : d.locate p = .ok l) : d.locate (p.withName beside) ≠ .ok l := by
  obtain ⟨root, parts⟩ := p
  obtain ⟨front, rfl⟩ := List.getLast?_eq_some_iff.mp hname
  rw [Path.withName, List.dropLast_concat]
  intro hbeside
  obtain ⟨m, hm, -, hlast⟩ := follow_concat.mp (locate_eq_ok.mp h).2.2
  obtain ⟨n, hn, -, hother⟩ := follow_concat.mp (locate_eq_ok.mp hbeside).2.2
  obtain rfl : m = n := Except.ok.inj (hm.symm.trans hn)
  split_ifs at hlast hother with hup hbesideUp
  · exact hne (hup.trans hbesideUp.symm)
  · have hlength := congrArg List.length (hlast.symm.trans hother.2)
    rw [List.length_dropLast, List.length_append, List.length_singleton] at hlength
    omega
  · have hlength := congrArg List.length (hlast.2.symm.trans hother)
    rw [List.length_dropLast, List.length_append, List.length_singleton] at hlength
    omega
  · have hnames := hlast.2.symm.trans hother.2
    exact hne (List.singleton_inj.mp (List.append_cancel_left hnames))

/-- **Two files put beside one another are both found**: the one by its path, and the other by its
name in the directory of the resolved path. -/
theorem read_stored (hput : d.put ⟨root, front ++ [name]⟩ bytes = .ok made)
    (hready : Extends made ready) (hother : ready.put ⟨root, front ++ [beside]⟩ other = .ok stored)
    (hne : name ≠ beside)
    (hroot : root ≠ .relative) :
    stored.read ⟨root, front ++ [name]⟩ = .ok bytes ∧
      stored.read ⟨.single, (Path.resolveParts (front ++ [name])).dropLast ++ [beside]⟩ =
        .ok other := by
  refine ⟨read_front hput hready hother hne, ?_⟩
  obtain ⟨l, hl, hdirectory, hname, _, _, hkeeps, _⟩ := put_place hput
  obtain ⟨m, hm, _, hup, hbesideSize, hlocateBeside, hkeepsBeside, hstored⟩ := put_place hother
  have hall : Keeps d ready := fun x hx => hready.keeps x (hkeeps x hx)
  obtain rfl : l = m := Except.ok.inj ((follow_of_keeps hall hl).symm.trans hm)
  have hresolved : (Path.resolveParts (front ++ [name])).dropLast = l := by
    rw [Path.resolveParts_concat, if_neg hname, ← follow_eq_resolve hl, List.dropLast_concat]
  rw [hresolved]
  refine read_eq_ok.mpr ⟨l ++ [beside], ?_, ?_⟩
  · apply locate_of_keeps hkeepsBeside
    exact locate_beside hlocateBeside hm (hall l hdirectory) hup hbesideSize hroot
  · rw [hstored, set_same]

end

end Disk

end TracedText
