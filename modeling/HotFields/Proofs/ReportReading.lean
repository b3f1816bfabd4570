import HotFields.Analysis.Report
import HotFields.Proofs.ByteOrder
import HotFields.Proofs.TableCounts
import HotFields.Text.Digit

namespace HotFields.Report

/-- The field and the count that a line tells. -/
def readCount (line : List Char) : UInt64 × UInt64 :=
  (UInt64.ofNat (Digit.valueOf (line.takeWhile (· ≠ ':'))),
    UInt64.ofNat (Digit.valueOf ((line.dropWhile (· ≠ ':')).drop 2)))

/-- The counts up to the first line with a name, and the structures from there on. -/
def readLines : List (List Char) → FieldCounts × List (String × FieldCounts)
  | [] => ([], [])
  | line :: rest =>
    let (counts, buckets) := readLines rest
    if line.getLast? = some ':' then ([], (String.ofList line.dropLast, counts) :: buckets)
    else (readCount line :: counts, buckets)

/-- The table that a report tells. The first line is the heading, and nothing follows the last line feed. -/
def read (text : String) : Table :=
  ⟨(readLines (text.toList.splitOn '\n').tail.dropLast).2⟩

theorem valueOf_toDigits (n : Nat) : Digit.valueOf (Nat.toDigits 10 n) = n := by
  have hstep : (fun n c => n * 10 + Digit.value c) = fun n c => 10 * n + (c.toNat - '0'.toNat) := by
    funext n c
    rw [Nat.mul_comm, Digit.value]
  rw [Digit.valueOf, hstep]
  exact Nat.ofDigitChars_ten_toDigits

theorem ne_of_mem_toDigits {n : Nat} {c d : Char} (hd : d.isDigit = false) (hc : c ∈ Nat.toDigits 10 n) : c ≠ d := by
  rintro rfl
  have hdigit := Nat.isDigit_of_mem_toDigits (by decide) (by decide) hc
  rw [hd] at hdigit
  cases hdigit

theorem toList_countLine (field n : Nat) :
    (Nat.repr field ++ ": " ++ Nat.repr n).toList =
      Nat.toDigits 10 field ++ ':' :: ' ' :: Nat.toDigits 10 n := by
  rw [String.toList_append, String.toList_append, Nat.toList_repr, Nat.toList_repr, List.append_assoc]
  rfl

theorem readCount_countLine (field n : UInt64) :
    readCount (Nat.repr field.toNat ++ ": " ++ Nat.repr n.toNat).toList = (field, n) := by
  have digits : ∀ c ∈ Nat.toDigits 10 field.toNat, decide (c ≠ ':') = true :=
    fun c hc => decide_eq_true (ne_of_mem_toDigits (by decide) hc)
  rw [readCount, toList_countLine, List.takeWhile_append_of_pos digits, List.dropWhile_append_of_pos digits]
  simp [valueOf_toDigits]

/-- A line with a count ends with a digit; this is what tells it from a line with a name. -/
theorem getLast?_countLine (field n : Nat) :
    (Nat.repr field ++ ": " ++ Nat.repr n).toList.getLast? ≠ some ':' := by
  have hne : Nat.toDigits 10 n ≠ [] := Nat.toDigits_ne_nil
  have hlast : (Nat.toDigits 10 field ++ [':', ' '] ++ Nat.toDigits 10 n).getLast? =
      (Nat.toDigits 10 n).getLast? := List.getLast?_append_of_ne_nil _ hne
  have hsplit : Nat.toDigits 10 field ++ ':' :: ' ' :: Nat.toDigits 10 n =
      Nat.toDigits 10 field ++ [':', ' '] ++ Nat.toDigits 10 n := by simp
  rw [toList_countLine, hsplit, hlast]
  intro hcolon
  exact ne_of_mem_toDigits (by decide) (List.mem_of_getLast? hcolon) rfl

theorem lineFeed_notMem_countLine (field n : Nat) :
    '\n' ∉ (Nat.repr field ++ ": " ++ Nat.repr n).toList := by
  rw [toList_countLine]
  intro hmem
  rcases List.mem_append.mp hmem with hmem | hmem
  · exact ne_of_mem_toDigits (by decide) hmem rfl
  · simp only [List.mem_cons] at hmem
    rcases hmem with heq | heq | hmem
    · exact absurd heq (by decide)
    · exact absurd heq (by decide)
    · exact ne_of_mem_toDigits (by decide) hmem rfl

theorem readLines_counts (counts : FieldCounts) (rest : List (List Char)) :
    readLines (counts.map (fun e => (Nat.repr e.1.toNat ++ ": " ++ Nat.repr e.2.toNat).toList) ++ rest) =
      (counts ++ (readLines rest).1, (readLines rest).2) := by
  induction counts with
  | nil => rfl
  | cons e counts ih =>
    rw [List.map_cons, List.cons_append, readLines, ih]
    simp only [if_neg (getLast?_countLine _ _), readCount_countLine, List.cons_append]

theorem readLines_bucketLines (owner : String) {counts : FieldCounts} (hne : counts ≠ []) (rest : List (List Char)) :
    readLines ((bucketLines owner counts).map String.toList ++ rest) =
      ([], (owner, counts ++ (readLines rest).1) :: (readLines rest).2) := by
  have hempty : counts.isEmpty = false := by simpa using hne
  have hname : (owner ++ ":").toList = owner.toList ++ [':'] := String.toList_append
  simp only [bucketLines, hempty, Bool.false_eq_true, if_false, List.map_cons, List.map_map, List.cons_append]
  rw [readLines]
  have hcounts := readLines_counts counts rest
  simp only [Function.comp_def]
  rw [hcounts, hname]
  simp [String.ofList_toList]

/-- By induction on the buckets. One without counts would not show, so there must be none. -/
theorem readLines_buckets {buckets : List (String × FieldCounts)} (inhabited : ∀ bucket ∈ buckets, bucket.2 ≠ []) :
    readLines ((buckets.flatMap fun (owner, counts) => bucketLines owner counts).map String.toList) =
      ([], buckets) := by
  induction buckets with
  | nil => rfl
  | cons bucket rest ih =>
    obtain ⟨owner, counts⟩ := bucket
    have hne : counts ≠ [] := inhabited (owner, counts) (by simp)
    have hrest := ih fun b hb => inhabited b (by simp [hb])
    rw [List.flatMap_cons, List.map_append, readLines_bucketLines owner hne, hrest, List.append_nil]

theorem toList_render (t : Table) :
    (render t).toList = (lines t).flatMap fun line => line.toList ++ ['\n'] := by
  have hrun : ∀ (ls : List String) (text : String),
      (ls.foldl (fun text line => text ++ line ++ "\n") text).toList =
        text.toList ++ ls.flatMap fun line => line.toList ++ ['\n'] := by
    intro ls
    induction ls with
    | nil => intro text; simp
    | cons line rest ih =>
      intro text
      rw [List.foldl_cons, ih, String.toList_append, String.toList_append, List.flatMap_cons, List.append_assoc,
        List.append_assoc, List.append_assoc]
      rfl
  exact hrun (lines t) ""

theorem splitOn_lines {ls : List String} (oneLine : ∀ line ∈ ls, '\n' ∉ line.toList) :
    (ls.flatMap fun line => line.toList ++ ['\n']).splitOn '\n' = ls.map String.toList ++ [[]] := by
  induction ls with
  | nil => rfl
  | cons line rest ih =>
    have hline := oneLine line (by simp)
    have hrest := ih fun l hl => oneLine l (by simp [hl])
    rw [List.flatMap_cons, List.append_assoc, List.singleton_append,
      List.splitOn_append_cons_self_of_not_mem hline, hrest]
    rfl

theorem lineFeed_notMem_lines {t : Table} (plain : ∀ owner ∈ t.structures, '\n' ∉ owner.toList) :
    ∀ line ∈ lines t, '\n' ∉ line.toList := by
  intro line hl
  rcases List.mem_cons.mp hl with rfl | hl
  · decide
  · obtain ⟨⟨owner, counts⟩, hb, hl⟩ := List.mem_flatMap.mp hl
    have hname := plain owner (List.mem_map.mpr ⟨_, hb, rfl⟩)
    simp only [bucketLines] at hl
    split at hl
    next => simp at hl
    next =>
      rcases List.mem_cons.mp hl with rfl | hl
      · rw [String.toList_append]
        intro hmem
        rcases List.mem_append.mp hmem with hmem | hmem
        · exact hname hmem
        · exact absurd hmem (by decide)
      · obtain ⟨e, _, rfl⟩ := List.mem_map.mp hl
        exact lineFeed_notMem_countLine _ _

theorem read_render_of_wellFormed {t : Table} (h : t.WellFormed)
    (plain : ∀ owner ∈ t.structures, '\n' ∉ owner.toList) : read (render t) = t := by
  have hlines : (lines t).map String.toList = heading.toList ::
      (t.buckets.flatMap fun (owner, counts) => bucketLines owner counts).map String.toList := rfl
  rw [read, toList_render, splitOn_lines (lineFeed_notMem_lines plain), hlines, List.cons_append, List.tail_cons,
    List.dropLast_concat, readLines_buckets h.inhabited]

/-- Structures with their fields as a report lists them: names ascend by their bytes and fields by their numbers, and
exactly the fields that have a count are there. -/
structure Lists (t : Table) (groups : List (String × List UInt64)) : Prop where
  names : groups.Pairwise fun g g' => utf8Bytes g.1 < utf8Bytes g'.1
  fields : ∀ g ∈ groups, g.2.Pairwise (· < ·)
  inhabited : ∀ g ∈ groups, g.2 ≠ []
  complete : ∀ owner field, t.Present owner field ↔ ∃ fields, (owner, fields) ∈ groups ∧ field ∈ fields

/-- The heading, and for every structure a line with its name and a line for each of its fields. -/
def textOf (t : Table) (groups : List (String × List UInt64)) : String :=
  heading ++ "\n" ++ String.join (groups.map fun (owner, fields) =>
    owner ++ ":\n" ++ String.join (fields.map fun field =>
      Nat.repr field.toNat ++ ": " ++ Nat.repr (t.count owner field).toNat ++ "\n"))

def groupsOf (t : Table) : List (String × List UInt64) :=
  t.buckets.map fun bucket => (bucket.1, bucket.2.map Prod.fst)

/-- The names of a table with their fields list its counts, in order and completely. -/
theorem lists_groupsOf {t : Table} (h : t.WellFormed) : Lists t (groupsOf t) := by
  refine ⟨?_, ?_, ?_, ?_⟩
  · exact List.pairwise_map.mpr (h.names.imp utf8Bytes_lt)
  · intro g hg
    obtain ⟨bucket, hb, rfl⟩ := List.mem_map.mp hg
    exact List.pairwise_map.mpr (h.fields bucket hb)
  · intro g hg
    obtain ⟨bucket, hb, rfl⟩ := List.mem_map.mp hg
    have hne := h.inhabited bucket hb
    simpa using hne
  · intro owner field
    constructor
    · rintro ⟨counts, hf, n, hn⟩
      have hb := (Ascending.find?_eq_some_iff_mem h.names).mp hf
      have he := (Ascending.find?_eq_some_iff_mem (h.fields _ hb)).mp hn
      exact ⟨counts.map Prod.fst, List.mem_map.mpr ⟨_, hb, rfl⟩, List.mem_map.mpr ⟨_, he, rfl⟩⟩
    · rintro ⟨fields, hg, hfield⟩
      obtain ⟨⟨name, counts⟩, hb, heq⟩ := List.mem_map.mp hg
      obtain ⟨rfl, rfl⟩ := Prod.mk.inj heq
      obtain ⟨⟨place, n⟩, he, rfl⟩ := List.mem_map.mp hfield
      exact ⟨counts, (Ascending.find?_eq_some_iff_mem h.names).mpr hb, n,
        (Ascending.find?_eq_some_iff_mem (h.fields _ hb)).mpr he⟩

theorem toList_bucketLines (owner : String) {counts : FieldCounts} (hne : counts ≠ []) :
    (bucketLines owner counts).flatMap (fun line => line.toList ++ ['\n']) =
      (owner ++ ":\n" ++ String.join (counts.map fun e =>
        Nat.repr e.1.toNat ++ ": " ++ Nat.repr e.2.toNat ++ "\n")).toList := by
  have hempty : counts.isEmpty = false := by simpa using hne
  simp [bucketLines, hempty, String.toList_join, List.flatMap_map]

theorem render_eq_textOf {t : Table} (h : t.WellFormed) : render t = textOf t (groupsOf t) := by
  have hbucket : ∀ bucket ∈ t.buckets, (bucketLines bucket.1 bucket.2).flatMap (fun line => line.toList ++ ['\n']) =
      (bucket.1 ++ ":\n" ++ String.join ((bucket.2.map Prod.fst).map fun field =>
        Nat.repr field.toNat ++ ": " ++ Nat.repr (t.count bucket.1 field).toNat ++ "\n")).toList := by
    intro bucket hb
    have hcounts : ∀ e ∈ bucket.2, Nat.repr e.1.toNat ++ ": " ++ Nat.repr e.2.toNat ++ "\n" =
        Nat.repr e.1.toNat ++ ": " ++ Nat.repr (t.count bucket.1 e.1).toNat ++ "\n" := by
      intro e he
      rw [h.count_of_mem hb he]
    rw [toList_bucketLines _ (h.inhabited bucket hb), List.map_congr_left hcounts, List.map_map]
    rfl
  apply String.toList_injective
  rw [toList_render, lines, List.flatMap_cons, List.flatMap_assoc, List.flatMap_congr hbucket, textOf, groupsOf,
    String.toList_append, String.toList_append, String.toList_join, List.map_map, List.flatMap_map]
  rfl

/-- The report of a table depends on its counts alone. It has every structure in the order of the bytes of its name, and
with it every field that has a count, once and in ascending order. If no name has a line feed, the table can be read back
from the report, so that different tables have different reports. -/
theorem render_canonical_lossless {t u : Table} (ht : t.Reachable) (hu : u.Reachable) :
    ((∀ owner field, t.count owner field = u.count owner field) → render t = render u) ∧
    (∃ groups, Lists t groups ∧ render t = textOf t groups) ∧
    ((∀ owner ∈ t.structures, '\n' ∉ owner.toList) → read (render t) = t) ∧
    ((∀ owner ∈ t.structures ++ u.structures, '\n' ∉ owner.toList) → render t = render u → t = u) := by
  have wt := ht.wellFormed
  have wu := hu.wellFormed
  refine ⟨?_, ⟨groupsOf t, lists_groupsOf wt, render_eq_textOf wt⟩, read_render_of_wellFormed wt, ?_⟩
  · intro same
    rw [wt.eq_of_count_eq wu same]
  · intro plain same
    have readt := read_render_of_wellFormed wt fun owner hm => plain owner (List.mem_append_left _ hm)
    have readu := read_render_of_wellFormed wu fun owner hm => plain owner (List.mem_append_right _ hm)
    rw [← readt, same, readu]

/-- Names that look like other lines of a report. -/
theorem render_canonical_lossless_lookalikes :
    let t := (((Table.empty.increment "2: 1" 10).increment "" 3).increment "2: 1" 2).increment "" 3
    let u := ((Table.empty.increment "" 3).merged (Table.empty.increment "2: 1" 2)).merge
      ((Table.empty.record ⟨"2: 1", 10, .load⟩).merged (Table.empty.record ⟨"", 3, .store⟩))
    render t = "Member access heatmap:\n:\n3: 2\n2: 1:\n2: 1\n10: 1\n" ∧
    (∀ owner ∈ t.structures ++ u.structures, '\n' ∉ owner.toList) ∧
    render t = render u ∧ read (render t) = t ∧ t = u := by
  intro t u
  have ht : t.Reachable := .increment (.increment (.increment (.increment .empty _ _) _ _) _ _) _ _
  have hu : u.Reachable :=
    .merge (.merged (.increment .empty _ _) (.increment .empty _ _)) (.merged (.record .empty _) (.record .empty _))
  have same : t = u := by decide
  have plain : ∀ owner ∈ t.structures ++ u.structures, '\n' ∉ owner.toList := by decide
  obtain ⟨canonical, -, readable, injective⟩ := render_canonical_lossless ht hu
  have reports : render t = render u := canonical fun owner field => by rw [same]
  exact ⟨by decide, plain, reports, readable fun owner hm => plain owner (List.mem_append_left _ hm),
    injective plain reports⟩

-- A name with a line feed can pass for several lines.
example :
    render (Table.empty.increment "a:\n0: 1\nb" 0) = render ((Table.empty.increment "a" 0).increment "b" 0) := by
  decide

end HotFields.Report
