import DeploymentBackup.Proofs.Archive.Members
import DeploymentBackup.Proofs.Digests.Listing
import DeploymentBackup.Proofs.Digests.Record
import DeploymentBackup.Remote.Host

namespace DeploymentBackup.Digests

open Text Archive Remote

/-!
# The records of both ends agree

The record of an archive decodes each path by itself; the record of checksum output decodes the
output as a whole and cuts it afterwards. Of the same files they are the same record.

* `keyOf`, `pairOf` — what is recorded of a file.
* `ofArchive_of_members` — the record of a well-formed archive.
* `digests_blobAt` — the record of what is printed on a host.
* `archive_agrees_listing` — when the two agree.
-/

/-- The path under which a file is recorded: decoded by itself, and without a `./` in front. -/
def keyOf (file : File) : String :=
  bare (decodeLossy file.path)

/-- The path and the digest that are recorded of a file. -/
def pairOf (file : File) : String × String :=
  (keyOf file, Digest.sha256Hex file.contents)

/-- A file below the directory is recorded as the file itself. -/
theorem entryFor_below (file : File) : entryFor (entryOf (below file)) = pairOf file := by
  rw [entryFor, entryOf, pairOf, keyOf, bare, decodeLossy, decodeLossyChars_below,
    String.toList_ofList, barePath, bare, decodeLossy, String.toList_ofList]
  rfl

theorem map_entryFor_below (files : List File) :
    ((files.map below).map entryOf).map entryFor = files.map pairOf := by
  rw [List.map_map, List.map_map]
  exact List.map_congr_left fun file _ => entryFor_below file

/-- The records of files with paths of their own agree when they are of the same pairs. -/
theorem agrees_ofFiles {files files' : List File} (h : (files.map keyOf).Nodup)
    (h' : (files'.map keyOf).Nodup) :
    (ofFiles (files.map below)).agrees (ofFiles (files'.map below)) = true ↔
      ∀ pair, pair ∈ files.map pairOf ↔ pair ∈ files'.map pairOf := by
  have hkeys (files : List File) :
      ((files.map below).map entryOf).map (bare ·.1) = files.map keyOf := by
    rw [List.map_map, List.map_map]
    exact List.map_congr_left fun file _ => congrArg Prod.fst (entryFor_below file)
  rw [ofFiles, ofFiles, agrees_ofList (hkeys files ▸ h) (hkeys files' ▸ h'),
    map_entryFor_below, map_entryFor_below]

/-! ### Both ends -/

/-- A well-formed archive has the record of its files. -/
theorem ofArchive_of_members {bytes : Bytes} {files : List File} (h : Members {} bytes files) :
    ofArchive bytes = .ok (ofFiles files) := by
  unfold ofArchive ofSource readSource Source.of
  simp only [readFrom_of_members h]

section

variable {W : Type} {r : Runner W} {directory : String} {w : W} {output : Output} {stderr : Bytes}

/-- A command that succeeds gives its output. -/
theorem checked_of_success {c : Command} (hrun : (r.run c.render w).1 = .ok output)
    (hsuccess : output.success = true) :
    checked r c w = (.ok (decodeLossy output.stdout), (r.run c.render w).2) := by
  rw [checked_of_output (Prod.ext hrun rfl), if_pos hsuccess]
  rfl

/-- The digests of a blob on a host are those that the host has printed. -/
theorem digests_blobAt (hrun : (r.run (Command.listDigests directory).render w).1 = .ok output)
    (hsuccess : output.success = true) {d : Digests}
    (hlisting : ofListing (decodeLossy output.stdout) = .ok d) (id : Identifier) :
    ((blobAt r id directory).digests w).1 = .ok d := by
  show ((checked r (.listDigests directory) >>= fun text =>
    Act.ofExcept ((ofListing text).mapError .checksum)) w).1 = _
  simp only [Act.bind_apply, checked_of_success hrun hsuccess, hlisting]
  rfl

/-- The digests of an archive and those that are printed where its files are can both be taken,
    whatever order they are in and however the lines are written, also when a path is no text. They
    agree when the files are the same, and for any files when these have the same paths as text and
    the same digests. -/
theorem archive_agrees_listing {stored : List File} {bytes : Bytes} {rows : List Row}
    (harchive : Members {} bytes (stored.map below))
    (hstored : (stored.map keyOf).Nodup)
    (hlisted : ((rows.map Row.file).map keyOf).Nodup) (hplain : ∀ row ∈ rows, row.Plain)
    (hrun : (r.run (Command.listDigests directory).render w).1 = .ok ⟨⟨0, stderr⟩, listing rows⟩)
    (id : Identifier) :
    ∃ stock remote, ofArchive bytes = .ok stock ∧
      ((blobAt r id directory).digests w).1 = .ok remote ∧
      (stock.agrees remote = true ↔
        ∀ pair, pair ∈ stored.map pairOf ↔ pair ∈ (rows.map Row.file).map pairOf) ∧
      ((rows.map Row.file).Perm stored → stock.agrees remote = true) := by
  -- Both ends are records of files below the directory, so only the files have to be compared.
  have hremote : ofListing (decodeLossy (listing rows)) =
      .ok (ofFiles ((rows.map Row.file).map below)) := by
    rw [ofListing_listing hplain, List.map_map]
    rfl
  have hagrees := agrees_ofFiles hstored hlisted
  refine ⟨_, _, ofArchive_of_members harchive, digests_blobAt hrun rfl hremote id, hagrees,
    fun hperm => hagrees.mpr fun pair => ?_⟩
  exact (hperm.map pairOf).mem_iff.symm

end

/-- A path that is no text and looks like a separator agrees, behind a directory and with lines in
    another order and of another form. -/
theorem archive_agrees_listing_shuffled :
    let strange : File := ⟨[0xFF, 0x20, 0x2A], [1]⟩
    let simple : File := ⟨encode "b", []⟩
    let rows := [Row.upper simple true true, Row.lower strange false false]
    let block (file : File) := header (below file).path [] file.contents.length 0
    let bytes := header (encode "./") [] 0 0x35 ++
      (block strange ++ (body strange.contents ++
        (block simple ++ (body simple.contents ++ endMark))))
    let r : Runner Unit :=
      ⟨fun _ w => (.ok ⟨⟨0, []⟩, listing rows⟩, w), fun _ _ w => (([], .ok ⟨0, []⟩), w),
        fun _ _ w => (.ok ⟨0, []⟩, w)⟩
    ∃ stock remote, ofArchive bytes = .ok stock ∧
      ((blobAt r (.named "b") "/data").digests ()).1 = .ok remote ∧
      stock.agrees remote = true := by
  intro strange simple rows block bytes r
  -- The archive holds the directory itself in front of its files.
  have harchive : Members {} bytes ([strange, simple].map below) := by
    have hmark : Members {} endMark [] := by
      rw [endMark, Nat.two_mul, ← List.replicate_append_replicate]
      exact .mark _
    have hsimple : Named (below simple).path [] := ⟨by decide, by decide⟩
    have hstrange : Named (below strange).path [] := ⟨by decide, by decide⟩
    have hdirectory : Named (encode "./") [] := ⟨by decide, by decide⟩
    have hfirst : simple.contents.length < UInt64.size := by decide
    have hsecond : strange.contents.length < UInt64.size := by decide
    have hfiles := (hmark.cons_file hsimple (by decide) hfirst).cons_file hstrange (by decide)
      hsecond
    exact hfiles.cons_dataless (dataless_header hdirectory (.inr (.inr rfl)))
  have hplain : ∀ row ∈ rows, row.Plain := by
    intro row hrow
    rcases List.mem_cons.mp hrow with rfl | hrow
    · exact ⟨by decide, by decide⟩
    · rw [List.mem_singleton.mp hrow]
      exact ⟨by decide, by decide⟩
  have hkeys : ([strange, simple].map keyOf).Nodup := by decide +kernel
  have hlisted : ((rows.map Row.file).map keyOf).Nodup := by decide +kernel
  have hrun : (r.run (Command.listDigests "/data").render ()).1 =
      .ok ⟨⟨0, []⟩, listing rows⟩ := rfl
  obtain ⟨stock, remote, hstock, hremote, -, hagrees⟩ :=
    archive_agrees_listing harchive hkeys hlisted hplain hrun (.named "b")
  exact ⟨stock, remote, hstock, hremote, hagrees (List.Perm.swap _ _ _)⟩

end DeploymentBackup.Digests
