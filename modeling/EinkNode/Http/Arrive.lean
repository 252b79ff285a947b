import EinkNode.Http.Converge
import EinkNode.Store.Intact
/-!
# What arrives is what was sent

The pieces of a response go into a temporary file, through redirects, two renames
and the checks of the store, and any call on the way may fail. A download that
returns 0 leaves the body of the last response under a name of the image, byte
for byte.
-/
open NodeLib EinkNode.Store

namespace EinkNode.Http

/-- The response that ends a download: the first one that does not redirect, or the last one that it follows. -/
def final_reply : Nat → List Reply → Reply
  | 0, replies => replies.headD .dead
  | left + 1, replies =>
    if is_redirect (replies.headD .dead) then final_reply left replies.tail else replies.headD .dead

def Reply.body (reply : Reply) : Bytes := reply.frags.flatten

/-! ## Into the temporary file -/

section
variable {tmp : Path} {d : Disk Path}

/-- A callback that reports no error has put each piece behind the ones before. -/
theorem response_cb_zero {frags : List Bytes} {content : Bytes} (hfile : d.files tmp = some content)
    (h : (download_response_cb tmp content.length frags d).1 = 0) :
    (download_response_cb tmp content.length frags d).2.files tmp = some (content ++ frags.flatten) := by
  induction frags generalizing content d with
  | nil => rw [List.flatten_nil, List.append_nil]; exact hfile
  | cons frag frags ih =>
    unfold download_response_cb at h ⊢
    split at h
    · exact absurd (show -ENOTSUP = 0 from h) (by decide)
    · next hlooks =>
      rw [if_neg hlooks]
      rw [bind_app] at h ⊢
      split at h
      · exact absurd (show -EIOERR = 0 from h) (by decide)
      · next hwritten =>
        rw [if_neg hwritten]
        obtain ⟨n, -, hn, hfile'⟩ := fs_write_at_end frag hfile (by omega)
        obtain rfl : n = frag.length := by omega
        rw [List.take_length] at hfile'
        rw [← List.length_append] at h ⊢
        rw [List.flatten_cons, ← List.append_assoc]
        exact ih hfile' h

/-- A request that succeeds leaves the body in the file. -/
theorem request_to_file_zero {reply : Reply} (hfile : d.files tmp = some [])
    (h : (request_to_file tmp reply d).1 = 0) :
    (request_to_file tmp reply d).2.files tmp = some reply.body := by
  unfold request_to_file at h ⊢
  rw [bind_app] at h ⊢
  split at h
  · next hret =>
    rw [if_pos hret]
    change (do_http tmp reply d).2.files tmp = _
    unfold do_http at hret ⊢
    rw [bind_app] at hret ⊢
    have hzero : (download_response_cb tmp ([] : Bytes).length (reply.frags.filter (· ≠ [])) d).1 = 0 := by
      by_contra hne
      dsimp only [pure_app] at hret
      rw [List.length_nil] at hne
      rw [if_pos hne] at hret
      exact hne hret
    have hwritten := response_cb_zero hfile hzero
    rw [List.nil_append, List.flatten_filter_ne_nil] at hwritten
    exact hwritten
  · next hret => exact absurd h hret

/-! ## Through the redirects -/

/-- What goes on after a request has begun it with the body in the file. -/
theorem attempt_zero {reply : Reply} {next : FS Int}
    (h : ((do
      let ret ← fs_open tmp true true
      if ret < 0 then pure ret
      else
        let ret ← request_to_file tmp reply
        if ret ≠ 0 then
          let _ ← fs_unlink tmp
          pure ret
        else next : FS Int) d).1 = 0) :
    ∃ d' : Disk Path, d'.files tmp = some reply.body ∧
      (do
        let ret ← fs_open tmp true true
        if ret < 0 then pure ret
        else
          let ret ← request_to_file tmp reply
          if ret ≠ 0 then
            let _ ← fs_unlink tmp
            pure ret
          else next : FS Int) d = next d' := by
  rw [bind_app] at h ⊢
  by_cases hopen : (fs_open tmp true true d).1 < 0
  · rw [if_pos hopen] at h
    exact absurd h (Int.ne_of_lt hopen)
  rw [if_neg hopen] at h ⊢
  rw [bind_app] at h ⊢
  by_cases hret : (request_to_file tmp reply (fs_open tmp true true d).2).1 = 0
  · rw [if_neg (not_not.2 hret)]
    exact ⟨_, request_to_file_zero (fs_open_trunc hopen) hret, rfl⟩
  · rw [if_pos hret] at h
    exact absurd h hret

theorem finish_download_zero {path : Path} (hne : path ≠ tmp) {reply : Reply} (hfile : d.files tmp = some reply.body)
    (h : (finish_download path tmp reply d).1 = 0) :
    (finish_download path tmp reply d).2.files path = some reply.body ∧ 200 ≤ reply.status ∧ reply.status < 300 := by
  unfold finish_download at h ⊢
  split at h
  · exact absurd (show -EIOERR = 0 from h) (by decide)
  · next hstatus =>
    rw [if_neg hstatus]
    rw [not_or, not_lt, not_le] at hstatus
    rw [bind_app] at h ⊢
    split at h
    · next hneg => exact absurd h (Int.ne_of_lt hneg)
    · next hren =>
      rw [if_neg hren]
      exact ⟨(fs_rename_files hren hne).trans hfile, hstatus⟩

/-- A download that succeeds ends with a response in the two hundreds, and its body is in the file. -/
theorem download_loop_zero {path : Path} (hne : path ≠ tmp) {left : Nat} {replies : List Reply}
    (h : (download_loop path tmp left replies d).1 = 0) :
    (download_loop path tmp left replies d).2.files path = some (final_reply left replies).body ∧
      200 ≤ (final_reply left replies).status ∧ (final_reply left replies).status < 300 := by
  induction left generalizing replies d with
  | zero =>
    unfold download_loop at h ⊢
    obtain ⟨d', hfile, hnext⟩ := attempt_zero h
    rw [hnext] at h ⊢
    exact finish_download_zero hne hfile h
  | succ left ih =>
    unfold download_loop at h ⊢
    obtain ⟨d', hfile, hnext⟩ := attempt_zero h
    rw [hnext] at h ⊢
    dsimp only at h ⊢
    rw [final_reply]
    by_cases hredirect : is_redirect (replies.headD .dead) = true
    · -- The next request starts with an empty file, whether the unlink went well or not.
      rw [if_pos hredirect] at h
      simp only [if_pos hredirect]
      exact ih h
    · rw [if_neg hredirect] at h
      simp only [if_neg hredirect]
      exact finish_download_zero hne hfile h

end

/-! ## Into the store -/

section
variable {b : Build} {expand : Expand} {image_id : Bytes}

/-- A build that leaves compressed images as they are accepts the file that has arrived. -/
theorem check_download_ok (hkeep : b.LZ4 = true → b.LZ4_EXPAND_ON_DISPLAY = true) {tmp path : Path} {rename : Bool}
    {d : Disk Path} (h : (check_download b expand tmp rename d).1 = .ok path) :
    path = tmp ∧ (check_download b expand tmp rename d).2.files = d.files := by
  have hfiles := (reading_read_head tmp 8 d).1
  unfold check_download at h ⊢
  rw [bind_app] at h ⊢
  cases hhead : (read_head tmp 8 d).1 with
  | error e =>
    rw [hhead] at h
    cases h
  | ok head =>
    rw [hhead] at h
    dsimp only at h ⊢
    split at h
    · cases h
    · next hlooks =>
      have hnot : ¬ (b.LZ4 && eink_lz4_is_frame head && !b.LZ4_EXPAND_ON_DISPLAY) = true := by
        intro hx
        simp only [Bool.and_eq_true, Bool.not_eq_true'] at hx
        exact absurd ((hkeep hx.1.1).symm.trans hx.2) (by decide)
      rw [if_neg hnot] at h
      rw [if_neg hlooks, if_neg hnot]
      cases h
      exact ⟨rfl, hfiles⟩

theorem not_file_of_http {url : Bytes}
    (hurl : ((ascii "http://").isPrefixOf url || (ascii "https://").isPrefixOf url) = true) :
    ¬ (ascii "file://").isPrefixOf url = true := by
  intro hfile
  obtain ⟨rest, rfl⟩ := List.isPrefixOf_iff_prefix.1 hfile
  rw [Bool.or_eq_true] at hurl
  rcases hurl with hurl | hurl
  · exact absurd hurl Bool.false_ne_true
  · exact absurd hurl Bool.false_ne_true

theorem fetch_image_ok (hkeep : b.LZ4 = true → b.LZ4_EXPAND_ON_DISPLAY = true) {url : Bytes}
    (hurl : ((ascii "http://").isPrefixOf url || (ascii "https://").isPrefixOf url) = true) {replies : List Reply}
    {tmp path : Path} {d : Disk Path} (h : (fetch_image b expand url replies tmp d).1 = .ok path) :
    path = tmp ∧ (fetch_image b expand url replies tmp d).2.files tmp =
        some (final_reply EINK_HTTP_MAX_REDIRECTS replies).body ∧
      200 ≤ (final_reply EINK_HTTP_MAX_REDIRECTS replies).status ∧
      (final_reply EINK_HTTP_MAX_REDIRECTS replies).status < 300 := by
  unfold fetch_image at h ⊢
  rw [if_neg (not_file_of_http hurl), if_pos hurl] at h ⊢
  rw [bind_app] at h ⊢
  split at h
  · cases h
  · next hret =>
    rw [if_neg hret]
    obtain ⟨hpath, hfiles⟩ := check_download_ok hkeep h
    rw [hfiles]
    refine ⟨hpath, ?_⟩
    have hzero := not_not.1 hret
    unfold http_download_to_file at hzero ⊢
    split at hzero
    · exact absurd (show -ENOMEM = 0 from hzero) (by decide)
    · next hlen =>
      rw [if_neg hlen]
      exact download_loop_zero (ne_append_tmp tmp) hzero

/-- Recording the declared hash leaves the names of the image alone. -/
theorem save_declared_names (hfits : Fits b image_id) {p : Path} (hp : p ∈ image_names b image_id)
    (sha : Option Bytes) (size : UInt32) (d : Disk Path) :
    (save_declared b image_id sha size d).2.files p = d.files p := by
  have hd := distinct_of_fits hfits
  refine (touches_save_declared (W := fun q => q = content_hash_tmp b image_id ∨
    q = eink_store_content_hash_path b image_id) (.inl rfl) (.inr rfl) sha size d).1 p ?_
  rintro (rfl | rfl)
  · exact hd.hash_tmp (List.mem_cons_of_mem _ hp)
  · exact hd.hash.1 (List.mem_cons_of_mem _ hp)

/-- A download that returns 0, whatever has failed on the way, has stored the body of the response that ended it,
byte for byte, and that body has passed the checks for its name. -/
theorem download_whole (hkeep : b.LZ4 = true → b.LZ4_EXPAND_ON_DISPLAY = true) (hfits : Fits b image_id) (url : Bytes)
    (hurl : ((ascii "http://").isPrefixOf url || (ascii "https://").isPrefixOf url) = true) (replies : List Reply)
    (content_sha256 : Option Bytes) (byte_size : UInt32) (d : Disk Path)
    (h : (eink_http_download_image_hashed b expand image_id url replies content_sha256 byte_size d).1 = 0) :
    200 ≤ (final_reply EINK_HTTP_MAX_REDIRECTS replies).status ∧
      (final_reply EINK_HTTP_MAX_REDIRECTS replies).status < 300 ∧
      ∃ format, Passed (final_reply EINK_HTTP_MAX_REDIRECTS replies).body format ∧
        (eink_http_download_image_hashed b expand image_id url replies content_sha256 byte_size d).2.files
          (accepted_path b image_id format) = some (final_reply EINK_HTTP_MAX_REDIRECTS replies).body := by
  have herr := fetch_image_error (b := b) expand url replies (download_path b image_id) d
  unfold eink_http_download_image_hashed at h ⊢
  rw [bind_app] at h ⊢
  cases hfetch : (fetch_image b expand url replies (download_path b image_id) d).1 with
  | error e =>
    rw [hfetch] at h
    exact absurd h (herr e hfetch)
  | ok tmp =>
    rw [hfetch] at h
    obtain ⟨rfl, hbody, hstatus⟩ := fetch_image_ok hkeep hurl hfetch
    generalize (fetch_image b expand url replies (download_path b image_id) d).2 = d1 at h hbody ⊢
    refine ⟨hstatus.1, hstatus.2, ?_⟩
    dsimp only at h ⊢
    unfold accept_and_record at h ⊢
    rw [bind_app] at h ⊢
    split at h
    · next hret => exact absurd h hret
    · next hret =>
      rw [if_neg hret]
      obtain ⟨format, file, hfile, hpassed, hstored⟩ := accept_zero (distinct_of_fits hfits).temp (not_not.1 hret)
      obtain rfl := Option.some.inj (hbody.symm.trans hfile)
      refine ⟨format, hpassed, ?_⟩
      rw [bind_app, pure_app]
      dsimp only
      rw [save_declared_names hfits (accepted_path_mem b image_id format), hstored]

end

/-- Through a redirect, and in two pieces. -/
theorem download_whole_redirected : 200 ≤ (final_reply EINK_HTTP_MAX_REDIRECTS redirected).status ∧
    (final_reply EINK_HTTP_MAX_REDIRECTS redirected).status < 300 ∧
      ∃ format, Passed (final_reply EINK_HTTP_MAX_REDIRECTS redirected).body format ∧
        (eink_http_download_image_hashed lz4Build (eink_lz4_expand_if_framed ⟨fun _ => true, fun _ => none⟩) (ascii "a")
          (ascii "http://h/a") redirected none 0 (.calm fun _ => none)).2.files
            (accepted_path lz4Build (ascii "a") format) =
              some (final_reply EINK_HTTP_MAX_REDIRECTS redirected).body :=
  download_whole (fun _ => rfl) (by decide) (ascii "http://h/a") (by decide) redirected none 0 (.calm fun _ => none)
    (by decide +kernel)

end EinkNode.Http
