import GraphManipulator.Client.Drawn
import GraphManipulator.Client.MessageLemmas
import GraphManipulator.Client.PageLemmas
import GraphManipulator.GraphMapper.Bounds
import GraphManipulator.GraphMapper.Distances
import GraphManipulator.GraphProcessor.Counters
import GraphManipulator.GraphProcessor.NodeCount
import GraphManipulator.Json.Text
import GraphManipulator.Lib.CyclicWrites
import GraphManipulator.Lib.Grouping
import GraphManipulator.Lib.Loop
import GraphManipulator.Lib.Peg
import GraphManipulator.Lib.UnsignedLoop
import GraphManipulator.WebSocket.Lemmas
import GraphManipulator.WSServer.Atomicity
import GraphManipulator.WSServer.Connections
import GraphManipulator.WSServer.Narrowing
import GraphManipulator.WSServer.Plots
import GraphManipulator.WSServer.Ranges
import GraphManipulator.WSServer.Service
