import SignalBroker.Files
import SignalBroker.Proofs.Except
import SignalBroker.Proofs.Table

namespace SignalBroker.Files

variable {fs fs' : Files} {l m : Location} {name content : String}

theorem find?_parents (entries : Table String FileEntry) (ls : List Location) {k : String}
    (h : entries.find? k = some .directory) :
    (ls.foldl (fun entries p => entries.insert p.name .directory) entries).find? k =
      some .directory := by
  rw [Table.find?_foldl_insert Location.name (fun _ => FileEntry.directory), h]
  cases ls.reverse.find? fun p => p.name = k <;> rfl

theorem entryAt?_putAt_self (hl : l.parts.isEmpty = false) (entry : FileEntry) :
    (fs.putAt l entry).entryAt? l = some entry := by
  rw [entryAt?, hl, putAt, Table.find?_insert, if_pos rfl]
  rfl

theorem entryAt?_putAt_directory (entry : FileEntry) (hl : fs.entryAt? l ≠ some .directory)
    (hm : fs.entryAt? m = some .directory) : (fs.putAt l entry).entryAt? m = some .directory := by
  unfold entryAt? at hl hm ⊢
  split at hm
  · next hempty => rw [if_pos hempty]
  · next hparts =>
    have hne : m.name ≠ l.name := by
      intro heq
      rw [← heq, hm] at hl
      split at hl <;> exact hl rfl
    rw [if_neg hparts, putAt, Table.find?_insert, if_neg hne]
    exact find?_parents fs.entries l.parents hm

/-- What can be gone through by way of some directories can be gone through wherever these are
directories. -/
theorem advance_of_directories (h : ∀ m, fs.entryAt? m = some .directory →
    fs'.entryAt? m = some .directory) {part : String} (ha : fs.advance l part = .ok m) :
    fs'.advance l part = .ok m := by
  unfold advance at ha ⊢
  split at ha
  · cases ha
  · cases ha
  · next hl =>
    rw [h l hl]
    exact ha

theorem foldlM_of_directories (h : ∀ m, fs.entryAt? m = some .directory →
    fs'.entryAt? m = some .directory) {parts : List String} {first : Location}
    (hl : parts.foldlM fs.advance first = .ok l) : parts.foldlM fs'.advance first = .ok l := by
  induction parts generalizing first with
  | nil => exact hl
  | cons part parts ih =>
    rw [List.foldlM_cons] at hl ⊢
    obtain ⟨next, hnext, hl⟩ := bind_eq_ok_iff.mp hl
    exact bind_eq_ok_iff.mpr ⟨next, advance_of_directories h hnext, ih hl⟩

theorem locate_of_directories (h : ∀ m, fs.entryAt? m = some .directory →
    fs'.entryAt? m = some .directory) (hl : fs.locate name = .ok l) : fs'.locate name = .ok l := by
  unfold locate at hl ⊢
  split at hl
  · cases hl
  · exact foldlM_of_directories h hl

theorem write_eq_ok (h : fs.write name content = .ok fs') : ∃ l, fs.locate name = .ok l ∧
    fs.entryAt? l ≠ some .directory ∧ fs' = fs.putAt l (.text content) := by
  obtain ⟨l, hl, h⟩ := bind_eq_ok_iff.mp h
  refine ⟨l, hl, ?_⟩
  cases he : fs.entryAt? l with
  | none =>
    rw [he] at h
    cases h
    exact ⟨nofun, rfl⟩
  | some entry =>
    rw [he] at h
    cases entry with
    | directory => cases h
    | text old =>
      cases h
      exact ⟨nofun, rfl⟩

theorem located_of_write (h : fs.write name content = .ok fs') :
    ∃ l, fs'.locate name = .ok l ∧ fs'.entryAt? l = some (.text content) := by
  obtain ⟨l, hl, hfile, rfl⟩ := write_eq_ok h
  have hparts : l.parts.isEmpty = false := by
    refine Bool.eq_false_iff.mpr fun hempty => hfile ?_
    rw [entryAt?, if_pos hempty]
  exact ⟨l, locate_of_directories (fun m hm => entryAt?_putAt_directory _ hfile hm) hl,
    entryAt?_putAt_self hparts _⟩

theorem read_of_write (h : fs.write name content = .ok fs') : fs'.read name = .ok content := by
  obtain ⟨l, hl, hentry⟩ := located_of_write h
  refine bind_eq_ok_iff.mpr ⟨l, hl, ?_⟩
  rw [hentry]
  rfl

theorem exists_write_of_write (h : fs.write name content = .ok fs') (later : String) :
    ∃ fs'', fs'.write name later = .ok fs'' := by
  obtain ⟨l, hl, hentry⟩ := located_of_write h
  refine ⟨fs'.putAt l (.text later), bind_eq_ok_iff.mpr ⟨l, hl, ?_⟩⟩
  rw [hentry]
  rfl

end SignalBroker.Files
