import TransmissionPlatform.Lib.StepSystem
import TransmissionPlatform.Lib.LittleEndian
import TransmissionPlatform.Lib.PosixPath
import TransmissionPlatform.Lib.Program
import TransmissionPlatform.Lib.Base64
import TransmissionPlatform.Lib.Handles
import TransmissionPlatform.Lib.ProtoWire
import TransmissionPlatform.Lib.TurnLoop
import TransmissionPlatform.Lib.ProtoClass
import TransmissionPlatform.Net.Message
import TransmissionPlatform.Net.Connection
import TransmissionPlatform.Net.Sending
import TransmissionPlatform.Net.Validation
import TransmissionPlatform.Net.Challenge
import TransmissionPlatform.Net.Framing
import TransmissionPlatform.Net.ClientHandshake
import TransmissionPlatform.Net.Link
import TransmissionPlatform.Net.Completion
import TransmissionPlatform.Net.Dispatch
import TransmissionPlatform.Net.Clients
import TransmissionPlatform.Net.Host
import TransmissionPlatform.Net.Acceptor
import TransmissionPlatform.Net.FirstContact
import TransmissionPlatform.Net.Replies
import TransmissionPlatform.Net.Lifetime
import TransmissionPlatform.Net.Container
import TransmissionPlatform.Net.MessageStack
import TransmissionPlatform.Net.ClientInterface
import TransmissionPlatform.Net.Peers
import TransmissionPlatform.Platform.KeyStore
import TransmissionPlatform.Platform.World
import TransmissionPlatform.Platform.MyRSA
import TransmissionPlatform.Platform.SeckeyAgree
import TransmissionPlatform.Platform.Work
import TransmissionPlatform.Platform.Pool
import TransmissionPlatform.Platform.Registration
import TransmissionPlatform.Platform.Agreement
import TransmissionPlatform.Platform.Service
import TransmissionPlatform.Platform.Answers
import TransmissionPlatform.Platform.Refinement
import TransmissionPlatform.Platform.Refusals
import TransmissionPlatform.Platform.MainLoop
import TransmissionPlatform.Platform.KeyUse
import TransmissionPlatform.Platform.Encoding
import TransmissionPlatform.Platform.MessagePb
import TransmissionPlatform.Platform.KeyDelivery
import TransmissionPlatform.Platform.Deployment
import TransmissionPlatform.Platform.Serving
import TransmissionPlatform.Platform.Base64
import TransmissionPlatform.Platform.Hash
import TransmissionPlatform.Platform.AesKey
import TransmissionPlatform.Platform.RsaKeys
import TransmissionPlatform.Platform.RsaHandles
import TransmissionPlatform.Thread.ThreadPool
import TransmissionPlatform.Thread.Stopping
import TransmissionPlatform.Thread.TSQueue
import TransmissionPlatform.Shm.BaseShm
import TransmissionPlatform.Shm.SeckeyShm
import TransmissionPlatform.Shm.Tables
import TransmissionPlatform.Platform.Restarts
