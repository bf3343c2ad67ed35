/-
# Files side by side in a directory

Writing a file changes nothing that a path runs over: directories stay, files stay or are replaced,
and none disappears.  So a text that a file can be written at leads to the same place and name after
any other file was written (`Lands.put`), and what was written there is read there
(`Lands.read_eq_ok`).

The texts of a directory's files differ in their last name alone:

`directory / name`  ↦  the route to `directory`, and then `name`

(`Route.ofText_file`), provided that the name is one, which `.` and a text with a slash are not.  So
files of different names that are written into one directory are all there in the end, each with
what was written last to its own name (`file?_putAll`).  Where such a text can be written to
(`Writable`), its directory is there (`Writable.lands`).
-/

import FrameConvert.Demo.Disk
import FrameConvert.Proofs.Yields

namespace FrameConvert
namespace Demo

variable {d d' : Disk} {here there place p q : Path} {name n text dir : String} {c : Plane}
  {files : List (String × Plane)}

/-- The name of a file in a directory. -/
structure FileName (n : String) : Prop where
  ne_empty : n ≠ ""
  slashless : '/' ∉ n.toList
  ne_dot : n ≠ "."
  ne_up : n ≠ ".."

instance (n : String) : Decidable (FileName n) :=
  decidable_of_iff (n ≠ "" ∧ '/' ∉ n.toList ∧ n ≠ "." ∧ n ≠ "..")
    ⟨fun ⟨h₁, h₂, h₃, h₄⟩ => ⟨h₁, h₂, h₃, h₄⟩,
      fun h => ⟨h.ne_empty, h.slashless, h.ne_dot, h.ne_up⟩⟩

namespace Route

/-- The route that the texts of a directory's files begin with. -/
def directory (home : Path) (dir : String) : Route :=
  ⟨if dir = "" ∨ dir.toList.head? = some '/' then [] else home, between dir⟩

theorem between_file (hn : FileName n) : between (dir ++ "/" ++ n) = between dir ++ [n] := by
  have hslash : "/".toList = ['/'] := rfl
  have hkept : [n].filter (· != "") = [n] := List.filter_cons_of_pos (by simpa using hn.ne_empty)
  rw [between, String.toList_append, String.toList_append, hslash, List.append_assoc,
    List.singleton_append, List.splitOn_append_cons_self, List.splitOn_eq_singleton hn.slashless,
    List.map_append, List.filter_append, List.map_singleton, String.ofList_toList, hkept, between]

/-- **The route of a file** is that of its directory, and then its name. -/
theorem ofText_file (hn : FileName n) {home : Path} {r : Route}
    (hr : ofText home (dir ++ "/" ++ n) = .ok r) :
    r = ⟨(directory home dir).start, (directory home dir).names ++ [n]⟩ := by
  rw [ofText] at hr
  split at hr
  · cases hr
  split at hr
  · cases hr
  obtain rfl := Except.ok.inj hr
  have hchars : (dir ++ "/" ++ n).toList = dir.toList ++ '/' :: n.toList := by
    rw [String.toList_append, String.toList_append, List.append_assoc]
    rfl
  have hhead : (dir ++ "/" ++ n).toList.head? = some '/' ↔
      dir = "" ∨ dir.toList.head? = some '/' := by
    rw [hchars, ← String.toList_eq_nil_iff]
    cases dir.toList <;> simp
  have hlast : (dir ++ "/" ++ n).toList.getLast? ≠ some '/' := by
    intro hlast
    rw [hchars, List.getLast?_append, List.getLast?_cons_of_ne_nil
      (mt String.toList_eq_nil_iff.1 hn.ne_empty)] at hlast
    cases hl : n.toList.getLast? with
    | none => exact hn.ne_empty (String.toList_eq_nil_iff.1 (List.getLast?_eq_none_iff.1 hl))
    | some c =>
      rw [hl, Option.some_or, Option.some.injEq] at hlast
      exact hn.slashless (hlast ▸ List.mem_of_getLast? hl)
  have hnames : namesOf (dir ++ "/" ++ n) = between (dir ++ "/" ++ n) := by
    rw [namesOf, if_neg hlast, List.append_nil]
  rw [hnames, between_file hn, directory]
  simp only [hhead]

end Route

namespace Disk

theorem follow_append (d : Disk) (start : Path) (xs ys : List String) :
    d.follow ⟨start, xs ++ ys⟩ = d.follow ⟨start, xs⟩ >>= fun here => d.follow ⟨here, ys⟩ :=
  List.foldlM_append

theorem follow_singleton (d : Disk) (here : Path) (name : String) :
    d.follow ⟨here, [name]⟩ = d.enter here name := by
  rw [follow, List.foldlM_cons]
  cases d.enter here name <;> rfl

/-- Where a name is followed there is a directory. -/
theorem isDirectory_of_enter (hne : d.enter here name ≠ .error .notADirectory) :
    d.isDirectory here = true := by
  cases hdir : d.isDirectory here with
  | true => rfl
  | false =>
    unfold enter at hne
    rw [hdir] at hne
    exact absurd rfl hne

/-- A directory with files put into it, one after the other. -/
def putAll (d : Disk) (here : Path) (files : List (String × Plane)) : Disk :=
  files.foldl (fun d f => d.put here f.1 f.2) d

/-- **A file written at a text lands** in a place under a name: the text leads to the place, and
there is a file of the name or nothing. -/
structure Lands (d : Disk) (text : String) (here : Path) (name : String) : Prop where
  route : ∃ r, Route.ofText d.home text = .ok r ∧ r.names.getLastD "." = name ∧
    d.follow ⟨r.start, r.names.dropLast⟩ = .ok here
  free : d.enter here name = .error .notFound ∨
    ∃ there, d.enter here name = .ok there ∧ d.isDirectory there = false

/-- **What can be written lands somewhere,** and is put there. -/
theorem write_eq_ok_iff :
    d.write text c = .ok d' ↔ ∃ here name, d.Lands text here name ∧ d' = d.put here name c := by
  constructor
  · intro hwrite
    obtain ⟨r, hr, hwrite⟩ := exists_of_bind_eq_ok hwrite
    obtain ⟨here, hhere, hwrite⟩ := exists_of_bind_eq_ok hwrite
    refine ⟨here, r.names.getLastD ".", ?_⟩
    split at hwrite
    · rename_i hfree
      exact ⟨⟨⟨r, hr, rfl, hhere⟩, .inl hfree⟩, (Except.ok.inj hwrite).symm⟩
    · cases hwrite
    · rename_i there hthere
      split at hwrite
      · cases hwrite
      · rename_i hdir
        rw [Bool.not_eq_true] at hdir
        exact ⟨⟨⟨r, hr, rfl, hhere⟩, .inr ⟨there, hthere, hdir⟩⟩, (Except.ok.inj hwrite).symm⟩
  · rintro ⟨here, name, ⟨⟨r, hr, rfl, hhere⟩, hfree⟩, rfl⟩
    rw [write, bind_eq_of_ok hr, bind_eq_of_ok hhere]
    rcases hfree with hfree | ⟨there, hthere, hdir⟩
    · rw [hfree]
    · rw [hthere]
      dsimp only
      rw [hdir]
      rfl

theorem Lands.write (hl : d.Lands text here name) (c : Plane) :
    d.write text c = .ok (d.put here name c) :=
  write_eq_ok_iff.2 ⟨here, name, hl, rfl⟩

/-- No file disappears. -/
theorem isSome_file?_put (h : (d.file? q).isSome = true) (here : Path) (name : String)
    (c : Plane) : ((d.put here name c).file? q).isSome = true := by
  by_cases hq : q = here ++ [name]
  · rw [hq, file?_put]
    rfl
  · rwa [file?_put_of_ne d here name c hq]

/-- A name that is looked up among directories and files. -/
structure Plain (name : String) : Prop where
  short : ¬Route.maxNameBytes < name.utf8ByteSize
  ne_dot : name ≠ "."
  ne_up : name ≠ ".."

theorem enter_plain (hdir : d.isDirectory p = true) (hname : Plain name) :
    d.enter p name =
      if d.isDirectory (p ++ [name]) || (d.file? (p ++ [name])).isSome then .ok (p ++ [name])
      else .error .notFound := by
  unfold enter
  rw [hdir, if_neg (by decide), if_neg hname.short, if_neg hname.ne_dot, if_neg hname.ne_up]

/-- **After a file was put somewhere** a name leads where it led, unless it led nowhere and leads to
a file now. -/
theorem enter_put (d : Disk) (place : Path) (n : String) (c : Plane) (here : Path)
    (name : String) :
    (d.put place n c).enter here name = d.enter here name ∨
      d.enter here name = .error .notFound ∧
        ∃ there, (d.put place n c).enter here name = .ok there ∧ d.isDirectory there = false := by
  by_cases hplain : d.isDirectory here = true ∧ Plain name
  · obtain ⟨hdir, hname⟩ := hplain
    rw [enter_plain hdir hname, enter_plain ((isDirectory_put ..).trans hdir) hname,
      isDirectory_put]
    cases hq : d.isDirectory (here ++ [name]) with
    | true => exact .inl rfl
    | false =>
      cases hfile : (d.file? (here ++ [name])).isSome with
      | true =>
        rw [isSome_file?_put hfile]
        exact .inl rfl
      | false =>
        cases ((d.put place n c).file? (here ++ [name])).isSome with
        | true => exact .inr ⟨rfl, _, rfl, hq⟩
        | false => exact .inl rfl
  · -- what the name leads to is settled before files are looked at
    left
    unfold enter
    rw [isDirectory_put]
    split
    · rfl
    rename_i hdir
    split
    · rfl
    rename_i hshort
    split
    · rfl
    rename_i hdot
    split
    · rfl
    rename_i hup
    exact absurd ⟨by simpa using hdir, hshort, hdot, hup⟩ hplain

theorem follow_put {r : Route} (hr : d.follow r = .ok here) (place : Path) (n : String)
    (c : Plane) : (d.put place n c).follow r = .ok here := by
  obtain ⟨start, names⟩ := r
  induction names generalizing start with
  | nil => exact hr
  | cons name names ih =>
    obtain ⟨next, hnext, hrest⟩ := exists_of_bind_eq_ok hr
    have hput : (d.put place n c).enter start name = .ok next := by
      rcases enter_put d place n c start name with h | ⟨h, -⟩
      · exact h.trans hnext
      · rw [hnext] at h
        cases h
    exact (bind_eq_of_ok hput).trans (ih next hrest)

/-- **What can be written can be written later as well,** and lands in the same place. -/
theorem Lands.put (hl : d.Lands text here name) (place : Path) (n : String) (c : Plane) :
    (d.put place n c).Lands text here name := by
  obtain ⟨⟨r, hr, hname, hhere⟩, hfree⟩ := hl
  refine ⟨⟨r, hr, hname, follow_put hhere place n c⟩, ?_⟩
  simp only [isDirectory_put]
  rcases enter_put d place n c here name with h | ⟨-, hthere⟩
  · rwa [h]
  · exact .inr hthere

theorem Lands.putAll (hl : d.Lands text here name) (place : Path)
    (files : List (String × Plane)) : (d.putAll place files).Lands text here name := by
  induction files generalizing d with
  | nil => exact hl
  | cons f files ih => exact ih (hl.put place f.1 f.2)

/-- Where a file lands there is a directory. -/
theorem Lands.isDirectory (hl : d.Lands text here name) : d.isDirectory here = true := by
  have hfound : d.enter here name ≠ .error .notADirectory := by
    rcases hl.free with h | ⟨there, h, -⟩ <;> rw [h] <;> nofun
  exact isDirectory_of_enter hfound

/-- **A file is read where it landed.** -/
theorem Lands.read_eq_ok (hl : d.Lands text p name) (hn : FileName name) {f : File}
    (hf : d.file? (p ++ [name]) = some f) : d.read text = .ok f.bytes := by
  have hdir := hl.isDirectory
  obtain ⟨⟨r, hr, hname, hhere⟩, hfree⟩ := hl
  have hplain : Plain name := by
    refine ⟨fun hlong => ?_, hn.ne_dot, hn.ne_up⟩
    unfold enter at hfree
    rw [hdir, if_neg (by decide), if_pos hlong] at hfree
    rcases hfree with h | ⟨there, h, -⟩ <;> cases h
  have henter : d.enter p name = .ok (p ++ [name]) := by
    rw [enter_plain hdir hplain, hf, Option.isSome_some, Bool.or_true, if_pos rfl]
  have hfollow : d.follow r = .ok (p ++ [name]) := by
    obtain ⟨start, names⟩ := r
    rcases List.eq_nil_or_concat names with rfl | ⟨front, last, rfl⟩
    · exact absurd hname.symm hn.ne_dot
    · dsimp only at hname hhere
      rw [List.concat_eq_append] at hname hhere ⊢
      rw [List.getLastD_concat] at hname
      rw [List.dropLast_concat] at hhere
      rw [follow_append, bind_eq_of_ok hhere, follow_singleton, hname, henter]
  rw [read, bind_eq_of_ok hr, bind_eq_of_ok hfollow, hf]

/-- Files of other names stay. -/
theorem file?_putAll_of_notMem (hn : n ∉ files.map Prod.fst) :
    (d.putAll p files).file? (p ++ [n]) = d.file? (p ++ [n]) := by
  induction files generalizing d with
  | nil => rfl
  | cons f files ih =>
    rw [List.map_cons, List.mem_cons, not_or] at hn
    refine (ih hn.2).trans (file?_put_of_ne d p f.1 f.2 ?_)
    intro heq
    exact hn.1 (List.singleton_inj.1 (List.append_cancel_left heq))

/-- **Files of different names are all there.** -/
theorem file?_putAll (hnodup : (files.map Prod.fst).Nodup) (hmem : (n, c) ∈ files) :
    (d.putAll p files).file? (p ++ [n]) = some ⟨p, n, c⟩ := by
  induction files generalizing d with
  | nil => cases hmem
  | cons f files ih =>
    rw [List.map_cons, List.nodup_cons] at hnodup
    rcases List.mem_cons.1 hmem with rfl | hmem
    · exact (file?_putAll_of_notMem hnodup.1).trans (file?_put d p n c)
    · exact ih hnodup.2 hmem

/-- The texts of a directory's files lead to it. -/
theorem Lands.of_file (hn : FileName n) (hl : d.Lands (dir ++ "/" ++ n) here name) :
    name = n ∧ d.follow (Route.directory d.home dir) = .ok here := by
  obtain ⟨⟨r, hr, rfl, hhere⟩, -⟩ := hl
  obtain rfl := Route.ofText_file hn hr
  rw [List.dropLast_concat] at hhere
  exact ⟨List.getLastD_concat .., hhere⟩

/-- A file can be written at a text. -/
def Writable (d : Disk) (text : String) : Prop := ∃ bytes d', d.write text bytes = .ok d'

theorem writable_of_isOk {text : String} {bytes : Plane}
    (hok : (d.write text bytes).isOk = true) : d.Writable text := by
  cases hw : d.write text bytes with
  | ok d' => exact ⟨bytes, d', hw⟩
  | error why =>
    rw [hw] at hok
    cases hok

theorem Writable.lands {dir n : String} (hw : d.Writable (dir ++ "/" ++ n)) (hn : FileName n) :
    ∃ here, d.follow (Route.directory d.home dir) = .ok here ∧
      d.Lands (dir ++ "/" ++ n) here n := by
  obtain ⟨bytes, d', hd'⟩ := hw
  obtain ⟨here, name, hlands, -⟩ := write_eq_ok_iff.1 hd'
  obtain ⟨rfl, hfollow⟩ := Lands.of_file hn hlands
  exact ⟨here, hfollow, hlands⟩

end Disk
end Demo
end FrameConvert
