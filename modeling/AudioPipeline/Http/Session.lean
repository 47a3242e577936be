import AudioPipeline.Element.Basic
import AudioPipeline.Http.Client

/-!
# Opening and reading (`esp_http_client.c`)

`esp_http_client_open` leaves the socket where the header loop has stopped, and
`esp_http_client_read` goes on from there.
-/

namespace AudioPipeline

/-- `esp_http_client_t`: what the socket has still to give, the string in
`response->head_buffer`, and `response->headers`. -/
structure HttpClient where
  socket : List UInt8
  headBuffer : Option (List UInt8)
  headers : HttpResHeader

/-- How `esp_http_client_open` ends. -/
inductive OpenResult
  | returned (ret : ℤ) (client : HttpClient)
  /-- `exit(-1)` -/
  | exit
  /-- an access outside of a buffer -/
  | fault

/-- `esp_http_client_open` of a new client, once the request is sent; `resp` is what the local
variable of `parse_header` holds before. -/
def espHttpClientOpen (mem : HeadHeap) (fin : SocketEnd) (resp : HttpResHeader)
    (socket : List UInt8) : OpenResult :=
  match readHeader mem fin socket with
  | .exit => .exit
  | .fault _ => .fault
  | .read st socket =>
    let response := st.head.takeWhile (· ≠ 0)
    match parseHeader resp response with
    | none => .fault
    | some headers =>
      let client : HttpClient :=
        { socket := socket
          headBuffer := some response
          headers := headers }
      if headers.statusCode ≠ 200 ∨ headers.contentLength ≤ 0 then .returned ESP_FAIL client
      else .returned ESP_OK client

/-- `esp_http_client_read`, when the socket gives `n` bytes, or as many as it has. -/
def espHttpClientRead (client : HttpClient) (n : ℕ) : List UInt8 × HttpClient :=
  if client.headBuffer = none ∨ client.headers.contentLength = 0 then ([], client)
  else (client.socket.take n, { client with socket := client.socket.drop n })

end AudioPipeline
